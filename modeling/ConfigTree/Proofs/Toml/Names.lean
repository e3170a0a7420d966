import ConfigTree.Proofs.Keyed
import ConfigTree.Toml.Value
import Mathlib.Data.List.Perm.Basic

/-!
# Names of TOML tables

No table of a TOML text has a name twice. A key is added only where there is
none of its name; a table with a header is put in place at the end, where it was
taken out when its header was read. Main statement: `hasUniqueNames_of_ofText?`.
-/

namespace ConfigTree.Toml

mutual

/-- Every table in the value has each of its names once. -/
def Value.HasUniqueNames : Value → Prop
  | .array items => ItemsHaveUniqueNames items
  | .table members =>
      (members.map Prod.fst).Nodup ∧ MembersHaveUniqueNames members
  | _ => True

def ItemsHaveUniqueNames : List Value → Prop
  | [] => True
  | item :: rest => item.HasUniqueNames ∧ ItemsHaveUniqueNames rest

def MembersHaveUniqueNames : List (String × Value) → Prop
  | [] => True
  | (_, value) :: rest => value.HasUniqueNames ∧ MembersHaveUniqueNames rest

end

@[grind =]
theorem membersHaveUniqueNames_iff {members : List (String × Value)} :
    MembersHaveUniqueNames members ↔
      ∀ member ∈ members, member.2.HasUniqueNames := by
  induction members with
  | nil => simp [MembersHaveUniqueNames]
  | cons first rest inductionHypothesis =>
      obtain ⟨name, value⟩ := first
      rw [MembersHaveUniqueNames, inductionHypothesis, List.forall_mem_cons]

/-! ## Tables under construction -/

/-- Every table in the item has each of its names once. -/
inductive Item.Unique : Item → Prop where
  | value
      {value : Value} (unique : value.HasUniqueNames) :
      Unique (.value value)
  | table
      {origin : Origin}
      {members : List (String × Item)}
      (distinct : (members.map Prod.fst).Nodup)
      (each : ∀ member ∈ members, Unique member.2) :
      Unique (.table origin members)
  | elements {tables : List (List (String × Item))}
      (distinct : ∀ members ∈ tables, (members.map Prod.fst).Nodup)
      (each : ∀ members ∈ tables, ∀ member ∈ members, Unique member.2) :
      Unique (.elements tables)

namespace Members

/-- Each name stands once, here and in every table of the members. -/
structure Unique (members : Members) : Prop where
  distinct : (members.map Prod.fst).Nodup
  each : ∀ member ∈ members, member.2.Unique

private theorem Unique.nil : Unique [] :=
  ⟨List.nodup_nil, fun _ none => absurd none List.not_mem_nil⟩

private theorem unique_table_iff {origin : Origin} {members : Members} :
    (Item.table origin members).Unique ↔ members.Unique := by
  constructor
  · rintro (_ | ⟨distinct, each⟩ | _)
    exact ⟨distinct, each⟩
  · intro unique
    exact .table unique.distinct unique.each

private theorem unique_elements_iff {tables : List Members} :
    (Item.elements tables).Unique ↔ ∀ members ∈ tables, members.Unique := by
  constructor
  · rintro (_ | _ | ⟨distinct, each⟩) members present
    exact ⟨distinct members present, each members present⟩
  · intro unique
    exact .elements (fun members present => (unique members present).distinct)
      fun members present => (unique members present).each

private theorem Unique.of_lookup
    {name : String}
    {item : Item}
    {members : Members}
    (unique : members.Unique)
    (found : members.lookup name = some item) : item.Unique :=
  unique.each _ (Keyed.mem_of_lookup found)

/-- A new name may be added. -/
theorem Unique.concat
    {name : String}
    {item : Item}
    {members : Members}
    (unique : members.Unique)
    (missing : name ∉ members.map Prod.fst) (added : item.Unique) :
    Unique (members ++ [(name, item)]) := by
  constructor
  · rw [List.map_append, List.nodup_append]
    refine ⟨unique.distinct, by simp, ?_⟩
    rintro earlier present _ isNew rfl
    rw [List.map_singleton, List.mem_singleton] at isNew
    rw [isNew] at present
    exact missing present
  · intro member present
    rcases List.mem_append.mp present with old | new
    · exact unique.each member old
    · rw [List.mem_singleton.mp new]
      exact added

private theorem Unique.erase
    {members : Members} (unique : members.Unique) (name : String) :
    (members.erase name).Unique := by
  have kept : (Members.erase name members).Sublist members :=
    List.filter_sublist
  exact ⟨unique.distinct.sublist (kept.map _),
    fun member present => unique.each member (kept.subset present)⟩

private theorem mem_set
    {name : String} {item : Item} {member : String × Item} {members : Members}
    (present : member ∈ Members.set name item members) :
    member = (name, item) ∨ member ∈ members := by
  induction members with
  | nil => exact .inl (List.mem_singleton.mp present)
  | cons first rest inductionHypothesis =>
      obtain ⟨other, old⟩ := first
      by_cases same : other = name
      · rw [Members.set, if_pos same] at present
        rcases List.mem_cons.mp present with new | later
        · exact .inl (same ▸ new)
        · exact .inr (List.mem_cons_of_mem _ later)
      · rw [Members.set, if_neg same] at present
        rcases List.mem_cons.mp present with isFirst | later
        · exact .inr (isFirst ▸ List.mem_cons_self)
        · rcases inductionHypothesis later with new | old
          · exact .inl new
          · exact .inr (List.mem_cons_of_mem _ old)

private theorem Unique.set
    {name : String}
    {item : Item}
    {members : Members}
    (unique : members.Unique)
    (put : item.Unique) :
    (members.set name item).Unique := by
  constructor
  · have distinct := unique.distinct
    clear unique
    induction members with
    | nil => simp [Members.set]
    | cons first rest inductionHypothesis =>
        obtain ⟨other, old⟩ := first
        obtain ⟨fresh, later⟩ :
            other ∉ rest.map Prod.fst ∧ (rest.map Prod.fst).Nodup :=
          List.nodup_cons.mp distinct
        by_cases same : other = name
        · rw [Members.set, if_pos same, ← same]
          exact distinct
        · rw [Members.set, if_neg same]
          refine List.nodup_cons.mpr ⟨?_, inductionHypothesis later⟩
          intro again
          obtain ⟨⟨_, found⟩, present, rfl⟩ := List.mem_map.mp again
          rcases mem_set present with new | old
          · exact same (congrArg Prod.fst new)
          · exact fresh (List.mem_map_of_mem old)
  · intro member present
    rcases mem_set present with new | old
    · exact new ▸ put
    · exact unique.each member old

@[simp]
theorem lookup_set (name : String) (item : Item) (members : Members) :
    (members.set name item).lookup name = some item := by
  induction members with
  | nil => simp [Members.set]
  | cons first rest inductionHypothesis =>
      obtain ⟨other, old⟩ := first
      by_cases same : other = name
      · simp [Members.set, same]
      · have differs : (name == other) = false :=
          beq_eq_false_iff_ne.mpr (Ne.symm same)
        rw [Members.set, if_neg same, List.lookup_cons, differs]
        exact inductionHypothesis

@[simp]
theorem set_set (name : String) (item later : Item) (members : Members) :
    (members.set name item).set name later = members.set name later := by
  induction members with
  | nil => simp [Members.set]
  | cons first rest inductionHypothesis =>
      obtain ⟨other, old⟩ := first
      by_cases same : other = name
      · simp [Members.set, same]
      · simp only [Members.set, if_neg same, inductionHypothesis]

private theorem concat_eq_set
    {name : String}
    {members : Members}
    (missing : members.lookup name = none)
    (item : Item) :
    members ++ [(name, item)] = members.set name item := by
  induction members with
  | nil => rfl
  | cons first rest inductionHypothesis =>
      obtain ⟨other, old⟩ := first
      rw [List.lookup_cons] at missing
      split at missing
      · cases missing
      · have differs : other ≠ name := by
          rintro rfl
          simp_all
        rw [Members.set, if_neg differs, List.cons_append,
          inductionHypothesis missing]

/-! ## Changes at the end of a path -/

/-- A change that keeps names unique keeps them so at the end of any path. -/
theorem Unique.within
    {dotted : Bool} {change : Origin → Members → Option Members}
    (keeps :
      ∀ origin members changed,
        members.Unique → change origin members = some changed →
          changed.Unique)
    {origin : Origin}
    {path : List String}
    {members changed : Members}
    (unique : members.Unique)
    (done : Members.within dotted change origin path members = some changed) :
    changed.Unique := by
  induction path generalizing origin members changed with
  | nil =>
      exact keeps origin members changed unique
        (by simpa [Members.within] using done)
  | cons name path inductionHypothesis =>
      unfold Members.within at done
      split at done
      next missing =>
        obtain ⟨inner, opened, rfl⟩ := Option.map_eq_some_iff.mp done
        have innerUnique := inductionHypothesis .nil opened
        exact unique.concat (Keyed.lookup_eq_none_iff.mp missing)
          (unique_table_iff.mpr innerUnique)
      next => cases done
      next origin inner found =>
        split at done
        · cases done
        · obtain ⟨after, entered, rfl⟩ := Option.map_eq_some_iff.mp done
          have innerUnique := unique_table_iff.mp (unique.of_lookup found)
          exact unique.set
            (unique_table_iff.mpr (inductionHypothesis innerUnique entered))
      next tables found =>
        have eachUnique := unique_elements_iff.mp (unique.of_lookup found)
        split at done
        next => cases done
        next last others reversed =>
          obtain ⟨after, entered, rfl⟩ := Option.map_eq_some_iff.mp done
          have backwards : tables = (last :: others).reverse := by
            rw [← reversed, List.reverse_reverse]
          have lastUnique : Members.Unique last :=
            eachUnique last (by simp [backwards])
          have afterUnique : Members.Unique after :=
            inductionHypothesis lastUnique entered
          refine unique.set (unique_elements_iff.mpr ?_)
          intro table present
          rcases List.mem_cons.mp (List.mem_reverse.mp present) with
            isLast | other
          · exact isLast ▸ afterUnique
          · exact eachUnique table (by simp [backwards, other])

/-- Two changes at the end of one path are one change there. -/
theorem within_bind_within
    (first second : Origin → Members → Option Members)
    (origin : Origin)
    (path : List String)
    (members : Members) :
    (Members.within false first origin path members).bind
        (Members.within false second origin path) =
      Members.within false
        (fun origin members => (first origin members).bind (second origin))
        origin path members := by
  induction path generalizing origin members with
  | nil => simp only [Members.within]
  | cons name path inductionHypothesis =>
      cases found : members.lookup name with
      | none =>
        have opens :
            ∀ change,
              Members.within false change origin (name :: path) members =
                (Members.within false change .onTheWay path []).map fun inner =>
                  members.set name (.table .onTheWay inner) := by
              intro change
              simp only [Members.within, found, concat_eq_set found]
              rfl
        rw [opens, opens, ← inductionHypothesis]
        cases Members.within false first .onTheWay path [] with
        | none => rfl
        | some inner => simp [Members.within]
      | some item =>
        cases item with
        | value value => simp [Members.within, found]
        | table innerOrigin inner =>
          have enters :
              ∀ change,
                Members.within false change origin (name :: path) members =
                  (Members.within false change innerOrigin path inner).map
                    fun inner =>
                      members.set name (.table innerOrigin inner) := by
                  intro change
                  simp [Members.within, found]
          rw [enters, enters, ← inductionHypothesis]
          cases Members.within false first innerOrigin path inner with
          | none => rfl
          | some inner => simp [Members.within]
        | elements tables =>
          cases reversed : tables.reverse with
          | nil => simp [Members.within, found, reversed]
          | cons last others =>
            have enters :
                ∀ change,
                  Members.within false change origin (name :: path) members =
                    (Members.within false change .header path last).map
                      fun last =>
                        members.set name
                            (.elements (last :: others).reverse) := by
                    intro change
                    simp only [Members.within, found, reversed]
            rw [enters, enters, ← inductionHypothesis]
            cases Members.within false first .header path last with
            | none => rfl
            | some last => simp [Members.within]

/-- Adding a key with its value keeps names unique. -/
theorem Unique.assign
    {path : List String}
    {value : Value}
    {members changed : Members}
    (unique : members.Unique)
    (valueUnique : value.HasUniqueNames)
    (done : Members.assign path value members = some changed) :
    changed.Unique := by
  unfold Members.assign at done
  split at done
  next => cases done
  next name way reversed =>
    refine unique.within ?_ done
    intro origin inner after innerUnique added
    split at added
    next allowed =>
      cases added
      have missing : inner.lookup name = none :=
        Option.isNone_iff_eq_none.mp (Bool.and_eq_true_iff.mp allowed).2
      exact innerUnique.concat (Keyed.lookup_eq_none_iff.mp missing)
        (.value valueUnique)
    next => cases added

end Members

/-! ## Finished tables -/

private theorem insertMember_perm
    (name : String) (value : Value) (members : List (String × Value)) :
    (insertMember name value members).Perm ((name, value) :: members) := by
  induction members with
  | nil => exact .refl _
  | cons first rest inductionHypothesis =>
      obtain ⟨other, old⟩ := first
      unfold insertMember
      split
      · exact .refl _
      · exact (inductionHypothesis.cons (other, old)).trans (.swap ..)

theorem sortMembers_perm
    (members : List (String × Value)) :
    (sortMembers members).Perm members := by
  have step : ∀ sorted : List (String × Value),
      (members.foldl
          (fun sorted member => insertMember member.1 member.2 sorted)
          sorted).Perm (members ++ sorted) := by
    induction members with
    | nil => exact fun sorted => .refl _
    | cons first rest inductionHypothesis =>
        intro sorted
        have inserted :=
          (insertMember_perm first.1 first.2 sorted).append_left rest
        exact (inductionHypothesis _).trans (inserted.trans List.perm_middle)
  have all := step []
  rw [List.append_nil] at all
  exact all

private theorem hasUniqueNames_sortMembers
    {members : List (String × Value)}
    (distinct : (members.map Prod.fst).Nodup)
    (each : MembersHaveUniqueNames members) :
    (Value.table (sortMembers members)).HasUniqueNames := by
  have perm := sortMembers_perm members
  refine ⟨(perm.map Prod.fst).nodup_iff.mpr distinct, ?_⟩
  rw [membersHaveUniqueNames_iff] at each ⊢
  intro member present
  exact each member (perm.mem_iff.mp present)

@[simp]
theorem names_finishMembers
    (members : Members) :
    (finishMembers members).map Prod.fst = members.map Prod.fst := by
  induction members with
  | nil => rfl
  | cons first rest inductionHypothesis =>
      obtain ⟨name, item⟩ := first
      simp [finishMembers, inductionHypothesis]

mutual

theorem hasUniqueNames_finish :
    ∀ item : Item, item.Unique → item.finish.HasUniqueNames
  | .value _, .value unique => unique
  | .table _ members, .table distinct each =>
      hasUniqueNames_sortMembers (names_finishMembers members ▸ distinct)
        (haveUniqueNames_finishMembers members each)
  | .elements tables, .elements distinct each =>
      haveUniqueNames_finishTables tables distinct each

theorem haveUniqueNames_finishMembers :
    ∀ members : List (String × Item), (∀ member ∈ members, member.2.Unique) →
      MembersHaveUniqueNames (finishMembers members)
  | [], _ => trivial
  | (_, item) :: rest, unique => by
      obtain ⟨here, later⟩ := List.forall_mem_cons.mp unique
      exact ⟨hasUniqueNames_finish item here,
        haveUniqueNames_finishMembers rest later⟩

theorem haveUniqueNames_finishTables :
    ∀ tables : List (List (String × Item)),
      (∀ members ∈ tables, (members.map Prod.fst).Nodup) →
        (∀ members ∈ tables, ∀ member ∈ members, member.2.Unique) →
        ItemsHaveUniqueNames (finishTables tables)
  | [], _, _ => trivial
  | members :: rest, distinct, unique => by
      obtain ⟨distinctHere, distinctLater⟩ := List.forall_mem_cons.mp distinct
      obtain ⟨here, later⟩ := List.forall_mem_cons.mp unique
      have first :=
        hasUniqueNames_sortMembers (names_finishMembers members ▸ distinctHere)
          (haveUniqueNames_finishMembers members here)
      exact ⟨first, haveUniqueNames_finishTables rest distinctLater later⟩

end

private theorem Members.Unique.finish
    {members : Members} (unique : members.Unique) :
    (Value.table (sortMembers (finishMembers members))).HasUniqueNames :=
  hasUniqueNames_finish (.table .header members)
    (.table unique.distinct unique.each)

mutual

theorem hasUniqueNames_of_ofSyntax {value : Value} :
    ∀ written : Syntax, ofSyntax written = some value → value.HasUniqueNames
  | .string _, read => by cases read; exact trivial
  | .integer _, read => by cases read; exact trivial
  | .real _, read => by cases read; exact trivial
  | .bool _, read => by cases read; exact trivial
  | .datetime _, read => by cases read; exact trivial
  | .array items, read => by
      unfold ofSyntax at read
      obtain ⟨values, readItems, rfl⟩ := Option.map_eq_some_iff.mp read
      exact haveUniqueNames_of_ofItems items readItems
  | .inline members, read => by
      unfold ofSyntax at read
      obtain ⟨values, readMembers, rfl⟩ := Option.map_eq_some_iff.mp read
      exact (unique_of_ofMembers members .nil readMembers).finish

theorem haveUniqueNames_of_ofItems {values : List Value} :
    ∀ items : List Syntax,
      ofItems items = some values → ItemsHaveUniqueNames values
  | [], read => by cases read; exact trivial
  | item :: rest, read => by
      unfold ofItems at read
      split at read
      next readItem readRest =>
        cases read
        exact ⟨hasUniqueNames_of_ofSyntax item readItem,
          haveUniqueNames_of_ofItems rest readRest⟩
      next => cases read

theorem unique_of_ofMembers {before after : Members} :
    ∀ members : List (List String × Syntax),
      before.Unique → ofMembers before members = some after → after.Unique
  | [], unique, read => by cases read; exact unique
  | (path, value) :: rest, unique, read => by
      unfold ofMembers at read
      split at read
      next => cases read
      next value' readValue =>
        split at read
        next => cases read
        next between assigned =>
          have valueUnique := hasUniqueNames_of_ofSyntax value readValue
          exact
            unique_of_ofMembers rest (unique.assign valueUnique assigned) read

end

/-! ## Documents -/

namespace Draft

/-- Names are unique in the current table, and also in the document that is
closed with any such table for it. -/
structure Sound (draft : Draft) : Prop where
  current : draft.current.Unique
  close :
    ∀ current closed,
      Members.Unique current →
        { draft with current := current }.close = some closed → closed.Unique

private theorem sound_start : Sound ⟨[], [], [], false⟩ := by
  refine ⟨.nil, ?_⟩
  intro current closed unique closes
  cases closes
  exact unique

private theorem unique_of_lookupWithin
    {way : List String}
    {name : String}
    {root found : Members}
    (unique : root.Unique)
    (looked : openTable.lookupWithin root way name = some (some found)) :
    found.Unique := by
  induction way generalizing root with
  | nil =>
      unfold openTable.lookupWithin at looked
      split at looked
      next => cases looked
      next inner here =>
        cases looked
        exact Members.unique_table_iff.mp (unique.of_lookup here)
      next => cases looked
  | cons step way inductionHypothesis =>
      unfold openTable.lookupWithin at looked
      split at looked
      next => cases looked
      next origin inner here =>
        exact inductionHypothesis
          (Members.unique_table_iff.mp (unique.of_lookup here)) looked
      next tables here =>
        have each := Members.unique_elements_iff.mp (unique.of_lookup here)
        refine inductionHypothesis ?_ looked
        cases last : tables.getLast? with
        | none => exact .nil
        | some table => exact each table (List.mem_of_getLast? last)
      next => cases looked

/-- The table of a header is taken out and put back at the end, so its name
stands once. -/
theorem sound_openTable
    {root : Members}
    {path : List String}
    {draft : Draft}
    (unique : root.Unique)
    (opened : openTable root path = some draft) : draft.Sound := by
  unfold openTable at opened
  split at opened
  next => cases opened
  next name way reversed =>
    obtain ⟨found, looked, opened⟩ := Option.bind_eq_some_iff.mp opened
    obtain ⟨erased, taken, opened⟩ := Option.bind_eq_some_iff.mp opened
    cases opened
    constructor
    · cases found with
      | none => exact .nil
      | some inner => exact unique_of_lookupWithin unique looked
    · intro current closed currentUnique closes
      simp only [close, reversed, Bool.false_eq_true, if_false] at closes
      have together :=
        Members.within_bind_within
          (fun _ members => some (Members.erase name members))
          (fun _ members => some (members ++ [(name, .table .header current)]))
          .header way.reverse root
      rw [taken, Option.bind_some, closes] at together
      refine unique.within ?_ together.symm
      intro origin members changed membersUnique done
      cases done
      refine (membersUnique.erase name).concat ?_
        (Members.unique_table_iff.mpr currentUnique)
      simp [Members.erase]

private theorem sound_openElement
    {root : Members}
    {path : List String}
    {draft : Draft}
    (unique : root.Unique)
    (opened : openElement root path = some draft) : draft.Sound := by
  unfold openElement at opened
  split at opened
  next => cases opened
  next name way reversed =>
    obtain ⟨started, done, rfl⟩ := Option.map_eq_some_iff.mp opened
    have startedUnique : Members.Unique started := by
      refine unique.within ?_ done
      intro origin members changed membersUnique added
      split at added
      next missing =>
        cases added
        refine membersUnique.concat (Keyed.lookup_eq_none_iff.mp missing)
          (Members.unique_elements_iff.mpr ?_)
        exact fun _ none => absurd none List.not_mem_nil
      next => cases added; exact membersUnique
      next => cases added
    refine ⟨.nil, ?_⟩
    intro current closed currentUnique closes
    simp only [close, reversed, if_true] at closes
    refine startedUnique.within ?_ closes
    intro origin members changed membersUnique added
    split at added
    next missing =>
      cases added
      refine membersUnique.concat (Keyed.lookup_eq_none_iff.mp missing)
        (Members.unique_elements_iff.mpr ?_)
      simpa using currentUnique
    next tables found =>
      cases added
      have each :=
        Members.unique_elements_iff.mp (membersUnique.of_lookup found)
      refine membersUnique.set (Members.unique_elements_iff.mpr ?_)
      intro table present
      rcases List.mem_append.mp present with old | new
      · exact each table old
      · rw [List.mem_singleton.mp new]
        exact currentUnique
    next => cases added

private theorem Sound.unique_close
    {draft : Draft}
    {root : Members}
    (sound : draft.Sound)
    (closes : draft.close = some root) :
    root.Unique :=
  sound.close draft.current root sound.current closes

/-- One statement keeps a draft sound. -/
theorem Sound.add
    {draft after : Draft} (sound : draft.Sound) (statement : Statement)
    (added : draft.add statement = some after) : after.Sound := by
  cases statement with
  | pair path written =>
      obtain ⟨value, read, added⟩ := Option.bind_eq_some_iff.mp added
      obtain ⟨current, assigned, added⟩ := Option.bind_eq_some_iff.mp added
      cases added
      exact ⟨sound.current.assign (hasUniqueNames_of_ofSyntax written read)
          assigned, sound.close⟩
  | table path =>
      obtain ⟨root, closes, opened⟩ := Option.bind_eq_some_iff.mp added
      exact sound_openTable (sound.unique_close closes) opened
  | element path =>
      obtain ⟨root, closes, opened⟩ := Option.bind_eq_some_iff.mp added
      exact sound_openElement (sound.unique_close closes) opened

private theorem Sound.addAll
    {draft after : Draft} (sound : draft.Sound) (statements : List Statement)
    (added : statements.foldlM Draft.add draft = some after) : after.Sound := by
  induction statements generalizing draft with
  | nil => cases added; exact sound
  | cons first rest inductionHypothesis =>
      obtain ⟨between, addedFirst, addedRest⟩ :=
        Option.bind_eq_some_iff.mp added
      exact inductionHypothesis (sound.add first addedFirst) addedRest

end Draft

/-- The value that a TOML text holds has no name twice in a table. -/
theorem hasUniqueNames_of_ofText?
    {text : String} {value : Value} (read : Value.ofText? text = some value) :
    value.HasUniqueNames := by
  obtain ⟨members, table, rfl⟩ := Option.map_eq_some_iff.mp read
  obtain ⟨written, _, table⟩ := Option.bind_eq_some_iff.mp table
  obtain ⟨draft, drafted, table⟩ := Option.bind_eq_some_iff.mp table
  obtain ⟨root, closes, table⟩ := Option.bind_eq_some_iff.mp table
  cases table
  have sound : draft.Sound := Draft.sound_start.addAll written drafted
  exact (sound.unique_close closes).finish

end ConfigTree.Toml
