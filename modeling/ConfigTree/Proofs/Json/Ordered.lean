import ConfigTree.Proofs.Json.Proper

/-!
# Ordered JSON values

A JSON value is ordered if every object in it has its members in ascending order
of names. Main statements: members that are put in order are the same members
(`sortMembers_perm`), putting a value in order makes it ordered
(`isOrdered_sorted`), and an ordered value stays as it is
(`sorted_of_isOrdered`).
-/

namespace ConfigTree.Json

mutual

/-- Every object in the value has its members in ascending order of names, so
each name once. -/
def Value.IsOrdered : Value → Prop
  | .array items => ItemsAreOrdered items
  | .object members => Ascending members ∧ MembersAreOrdered members
  | _ => True

def ItemsAreOrdered : List Value → Prop
  | [] => True
  | item :: rest => item.IsOrdered ∧ ItemsAreOrdered rest

def MembersAreOrdered : List (String × Value) → Prop
  | [] => True
  | (_, value) :: rest => value.IsOrdered ∧ MembersAreOrdered rest

end

@[grind =]
theorem membersAreOrdered_iff {members : List (String × Value)} :
    MembersAreOrdered members ↔ ∀ member ∈ members, member.2.IsOrdered := by
  induction members with
  | nil => simp [MembersAreOrdered]
  | cons first rest inductionHypothesis =>
      obtain ⟨name, value⟩ := first
      rw [MembersAreOrdered, inductionHypothesis, List.forall_mem_cons]

/-! ## Members in order -/

private theorem insertMember_perm
    {name : String} {value : Value} {members : List (String × Value)}
    (fresh : name ∉ members.map Prod.fst) :
    (insertMember name value members).Perm ((name, value) :: members) := by
  induction members with
  | nil => exact .refl _
  | cons first rest inductionHypothesis =>
      obtain ⟨other, old⟩ := first
      obtain ⟨different, behind⟩ : name ≠ other ∧ name ∉ rest.map Prod.fst :=
        not_or.mp (mt List.mem_cons.mpr fresh)
      rw [insertMember, if_neg different]
      split
      · exact .refl _
      · exact ((inductionHypothesis behind).cons _).trans (.swap ..)

/-- Inserting members into others brings in each of them, where no name is there
twice. -/
theorem foldl_insertMember_perm :
    ∀ {members sorted : List (String × Value)},
      ((sorted ++ members).map Prod.fst).Nodup →
        (members.foldl
          (fun sorted member => insertMember member.1 member.2 sorted)
          sorted).Perm (sorted ++ members)
  | [], sorted, _ => by rw [List.foldl_nil, List.append_nil]
  | (name, value) :: rest, sorted, distinct => by
      have moved :
          (((name, value) :: sorted) ++ rest).Perm
            (sorted ++ (name, value) :: rest) :=
        List.perm_middle.symm
      have distinctMoved := (moved.map Prod.fst).nodup_iff.mpr distinct
      have fresh : name ∉ sorted.map Prod.fst := by
        rw [List.cons_append, List.map_cons, List.map_append] at distinctMoved
        exact fun member =>
          (List.nodup_cons.mp distinctMoved).1 (List.mem_append_left _ member)
      have inserted :
          (insertMember name value sorted ++ rest).Perm
            (((name, value) :: sorted) ++ rest) :=
        (insertMember_perm fresh).append_right rest
      have later :=
        foldl_insertMember_perm
          ((inserted.map Prod.fst).nodup_iff.mpr distinctMoved)
      exact later.trans (inserted.trans moved)

theorem sortMembers_perm
    {members : List (String × Value)}
    (distinct : (members.map Prod.fst).Nodup) :
    (sortMembers members).Perm members :=
  foldl_insertMember_perm distinct

private theorem ascending_sortMembers
    (members : List (String × Value)) :
    Ascending (sortMembers members) := by
  refine List.foldlRecOn (motive := Ascending) members _ .nil ?_
  intro sorted ascending member _
  exact ascending_insertMember _ _ ascending

/-- Members that stand in order are not moved. -/
theorem sortMembers_of_ascending
    {members : List (String × Value)} (ascending : Ascending members) :
    sortMembers members = members := by
  refine List.Perm.eq_of_pairwise ?_ (ascending_sortMembers members) ascending
    (sortMembers_perm (nodup_of_ascending ascending))
  intro earlier later _ _ before after
  exact absurd after before.asymm

/-! ## Values in order -/

@[grind =]
theorem sortedMembers_eq_map (members : List (String × Value)) :
    sortedMembers members =
      members.map fun member => (member.1, member.2.sorted) := by
  induction members with
  | nil => rfl
  | cons first rest inductionHypothesis =>
      obtain ⟨name, value⟩ := first
      rw [sortedMembers, inductionHypothesis, List.map_cons]

@[simp]
theorem names_sortedMembers (members : List (String × Value)) :
    (sortedMembers members).map Prod.fst = members.map Prod.fst := by
  rw [sortedMembers_eq_map, List.map_map]
  rfl

mutual

theorem isOrdered_sorted : ∀ value : Value, value.sorted.IsOrdered
  | .null => trivial
  | .bool _ => trivial
  | .number _ => trivial
  | .string _ => trivial
  | .array items => itemsAreOrdered_sortedItems items
  | .object members => by
      refine ⟨ascending_sortMembers _, membersAreOrdered_iff.mpr ?_⟩
      have each :=
        membersAreOrdered_iff.mp (membersAreOrdered_sortedMembers members)
      refine List.foldlRecOn
        (motive := fun sorted : List (String × Value) =>
          ∀ member ∈ sorted, member.2.IsOrdered)
        (sortedMembers members) _ (fun _ none => absurd none List.not_mem_nil)
          ?_
      intro sorted earlier first among member present
      rcases mem_insertMember present with new | old
      · exact new ▸ each first among
      · exact earlier member old

theorem itemsAreOrdered_sortedItems :
    ∀ items : List Value, ItemsAreOrdered (sortedItems items)
  | [] => trivial
  | item :: rest => ⟨isOrdered_sorted item, itemsAreOrdered_sortedItems rest⟩

theorem membersAreOrdered_sortedMembers :
    ∀ members : List (String × Value), MembersAreOrdered (sortedMembers members)
  | [] => trivial
  | (_, value) :: rest =>
      ⟨isOrdered_sorted value, membersAreOrdered_sortedMembers rest⟩

end

mutual

theorem sorted_of_isOrdered :
    ∀ value : Value, value.IsOrdered → value.sorted = value
  | .null, _ => rfl
  | .bool _, _ => rfl
  | .number _, _ => rfl
  | .string _, _ => rfl
  | .array items, ordered => by
      rw [Value.sorted, sortedItems_of_areOrdered items ordered]
  | .object members, ⟨ascending, ordered⟩ => by
      rw [Value.sorted, sortedMembers_of_areOrdered members ordered,
        sortMembers_of_ascending ascending]

theorem sortedItems_of_areOrdered :
    ∀ items : List Value, ItemsAreOrdered items → sortedItems items = items
  | [], _ => rfl
  | item :: rest, ⟨here, later⟩ => by
      rw [sortedItems, sorted_of_isOrdered item here,
        sortedItems_of_areOrdered rest later]

theorem sortedMembers_of_areOrdered :
    ∀ members : List (String × Value),
      MembersAreOrdered members → sortedMembers members = members
  | [], _ => rfl
  | (_, value) :: rest, ⟨here, later⟩ => by
      rw [sortedMembers, sorted_of_isOrdered value here,
        sortedMembers_of_areOrdered rest later]

end

end ConfigTree.Json
