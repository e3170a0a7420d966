import ConfigTree.Proofs.Json.Numbers
import Mathlib.Data.String.Basic

/-!
# Objects of JSON texts

A value that a JSON text holds is proper: no object has a name twice, since
members are kept in ascending order of names, and every number is finite. Main
statement: `isProper_of_ofText?`.
-/

namespace ConfigTree.Json

mutual

/-- Every object in the value has each of its names once, and every number is
finite. -/
def Value.IsProper : Value → Prop
  | .number (.real value) => value.isFinite = true
  | .array items => ItemsAreProper items
  | .object members => (members.map Prod.fst).Nodup ∧ MembersAreProper members
  | _ => True

def ItemsAreProper : List Value → Prop
  | [] => True
  | item :: rest => item.IsProper ∧ ItemsAreProper rest

def MembersAreProper : List (String × Value) → Prop
  | [] => True
  | (_, value) :: rest => value.IsProper ∧ MembersAreProper rest

end

@[grind =]
theorem membersAreProper_iff {members : List (String × Value)} :
    MembersAreProper members ↔ ∀ member ∈ members, member.2.IsProper := by
  induction members with
  | nil => simp [MembersAreProper]
  | cons first rest inductionHypothesis =>
      obtain ⟨name, value⟩ := first
      rw [MembersAreProper, inductionHypothesis, List.forall_mem_cons]

/-! ## Order of names -/

/-- The names of members in strictly ascending order. -/
def Ascending (members : List (String × Value)) : Prop :=
  members.Pairwise fun earlier later => earlier.1 < later.1

theorem mem_insertMember
    {name : String}
    {value : Value}
    {member : String × Value}
    {members : List (String × Value)}
    (present : member ∈ insertMember name value members) :
    member = (name, value) ∨ member ∈ members := by
  induction members with
  | nil => exact .inl (List.mem_singleton.mp present)
  | cons first rest inductionHypothesis =>
      obtain ⟨other, old⟩ := first
      unfold insertMember at present
      split at present
      · exact List.mem_cons.mp present
      · split at present
        · rcases List.mem_cons.mp present with new | later
          · exact .inl new
          · exact .inr (List.mem_cons_of_mem _ later)
        · rcases List.mem_cons.mp present with isFirst | later
          · exact .inr (isFirst ▸ List.mem_cons_self)
          · rcases inductionHypothesis later with new | old
            · exact .inl new
            · exact .inr (List.mem_cons_of_mem _ old)

theorem ascending_insertMember
    {members : List (String × Value)} (name : String) (value : Value)
    (ascending : Ascending members) :
    Ascending (insertMember name value members) := by
  induction members with
  | nil => exact List.pairwise_singleton _ _
  | cons first rest inductionHypothesis =>
      obtain ⟨other, old⟩ := first
      obtain ⟨below, later⟩ := List.pairwise_cons.mp ascending
      unfold insertMember
      split
      next before =>
        refine List.pairwise_cons.mpr ⟨?_, ascending⟩
        intro member present
        rcases List.mem_cons.mp present with isFirst | present
        · exact isFirst ▸ before
        · exact before.trans (below member present)
      next notBefore =>
        split
        next same => exact List.pairwise_cons.mpr ⟨same ▸ below, later⟩
        next different =>
          refine List.pairwise_cons.mpr ⟨?_, inductionHypothesis later⟩
          intro member present
          rcases mem_insertMember present with new | present
          · exact new ▸ lt_of_le_of_ne (not_lt.mp notBefore) (Ne.symm different)
          · exact below member present

theorem nodup_of_ascending
    {members : List (String × Value)} (ascending : Ascending members) :
    (members.map Prod.fst).Nodup := by
  refine List.pairwise_map.mpr (ascending.imp ?_)
  intro earlier later before
  exact ne_of_lt before

/-- Inserting keeps the order of names, and what is inserted is all that is
new. -/
theorem isProper_sortMembers
    {members : List (String × Value)} (proper : MembersAreProper members) :
    (Value.object (sortMembers members)).IsProper := by
  rw [membersAreProper_iff] at proper
  have sorted :
      Ascending (sortMembers members) ∧
        ∀ member ∈ sortMembers members, member.2.IsProper := by
    unfold sortMembers
    refine List.foldlRecOn
      (motive := fun sorted : List (String × Value) =>
        Ascending sorted ∧ ∀ member ∈ sorted, member.2.IsProper)
      members _ ⟨.nil, fun _ none => absurd none List.not_mem_nil⟩ ?_
    rintro sorted ⟨ascending, each⟩ first among
    refine ⟨ascending_insertMember _ _ ascending, ?_⟩
    intro member present
    rcases mem_insertMember present with new | old
    · exact new ▸ proper first among
    · exact each member old
  exact ⟨nodup_of_ascending sorted.1, membersAreProper_iff.mpr sorted.2⟩

/-! ## Values of texts -/

mutual

theorem isProper_of_ofSyntax {value : Value} :
    ∀ (depth : Nat) (written : Syntax),
      ofSyntax depth written = some value → value.IsProper
  | _, .null, read => by cases read; exact trivial
  | _, .bool _, read => by cases read; exact trivial
  | _, .number numeral, read => by
      unfold ofSyntax at read
      obtain ⟨number, isNumber, rfl⟩ := Option.map_eq_some_iff.mp read
      cases number with
      | integer whole => exact trivial
      | real value => exact isFinite_of_numberOf isNumber
  | _, .string pieces, read => by
      unfold ofSyntax at read
      obtain ⟨text, spelt, rfl⟩ := Option.map_eq_some_iff.mp read
      exact trivial
  | 0, .array _, read => by cases read
  | depth + 1, .array items, read => by
      unfold ofSyntax at read
      obtain ⟨values, readItems, rfl⟩ := Option.map_eq_some_iff.mp read
      exact itemsAreProper_of_ofItems depth items readItems
  | 0, .object _, read => by cases read
  | depth + 1, .object members, read => by
      unfold ofSyntax at read
      obtain ⟨values, readMembers, rfl⟩ := Option.map_eq_some_iff.mp read
      exact isProper_sortMembers
        (membersAreProper_of_ofMembers depth members readMembers)

theorem itemsAreProper_of_ofItems {values : List Value} :
    ∀ (depth : Nat) (items : List Syntax),
      ofItems depth items = some values → ItemsAreProper values
  | _, [], read => by cases read; exact trivial
  | depth, item :: rest, read => by
      unfold ofItems at read
      split at read
      next readItem readRest =>
        cases read
        exact ⟨isProper_of_ofSyntax depth item readItem,
          itemsAreProper_of_ofItems depth rest readRest⟩
      next => cases read

theorem membersAreProper_of_ofMembers {values : List (String × Value)} :
    ∀ (depth : Nat) (members : List (List Piece × Syntax)),
      ofMembers depth members = some values → MembersAreProper values
  | _, [], read => by cases read; exact trivial
  | depth, (_, value) :: rest, read => by
      unfold ofMembers at read
      split at read
      next readValue readRest =>
        cases read
        exact ⟨isProper_of_ofSyntax depth value readValue,
          membersAreProper_of_ofMembers depth rest readRest⟩
      next => cases read

end

/-- The value that a JSON text holds is proper. -/
theorem isProper_of_ofText?
    {text : String} {value : Value} (read : Value.ofText? text = some value) :
    value.IsProper := by
  obtain ⟨written, _, meant⟩ := Option.bind_eq_some_iff.mp read
  exact isProper_of_ofSyntax deepest written meant

end ConfigTree.Json
