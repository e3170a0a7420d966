import ConfigTree.Proofs.Node.Strings
import Mathlib.Data.List.Forall2

/-!
# Reordered trees

Trees that differ in the order of the entries of their mappings. They have the
same strings under the same key paths (`strings_perm`), and so have the trees
that come of them when the strings are replaced (`substitute_reorders`).
-/

namespace ConfigTree.Node

mutual

/-- Every mapping in the tree has each of its keys once. -/
def HasUniqueKeys : Node → Prop
  | .sequence items => ItemsHaveUniqueKeys items
  | .mapping entries =>
      (entries.map Prod.fst).Nodup ∧ EntriesHaveUniqueKeys entries
  | _ => True

def ItemsHaveUniqueKeys : List Node → Prop
  | [] => True
  | item :: rest => HasUniqueKeys item ∧ ItemsHaveUniqueKeys rest

def EntriesHaveUniqueKeys : List (String × Node) → Prop
  | [] => True
  | (_, value) :: rest => HasUniqueKeys value ∧ EntriesHaveUniqueKeys rest

end

/-- The second tree has the entries of mappings of the first, at any depth, in
another order. -/
inductive Reorders : Node → Node → Prop where
  | refl (tree : Node) : Reorders tree tree
  | trans
      {tree other last : Node}
      (first : Reorders tree other)
      (second : Reorders other last) :
      Reorders tree last
  | entries
      {entries reordered : List (String × Node)}
      (perm : entries.Perm reordered) :
      Reorders (.mapping entries) (.mapping reordered)
  | value
      (before after : List (String × Node))
      (key : String)
      {value other : Node}
      (inner : Reorders value other) :
      Reorders (.mapping (before ++ (key, value) :: after))
        (.mapping (before ++ (key, other) :: after))
  | item
      (before after : List Node)
      {item other : Node}
      (inner : Reorders item other) :
      Reorders (.sequence (before ++ item :: after))
        (.sequence (before ++ other :: after))

@[grind =]
theorem itemsHaveUniqueKeys_iff {items : List Node} :
    ItemsHaveUniqueKeys items ↔ ∀ item ∈ items, item.HasUniqueKeys := by
  induction items with
  | nil => simp [ItemsHaveUniqueKeys]
  | cons first rest inductionHypothesis =>
      rw [ItemsHaveUniqueKeys, inductionHypothesis, List.forall_mem_cons]

@[grind =]
theorem entriesHaveUniqueKeys_iff {entries : List (String × Node)} :
    EntriesHaveUniqueKeys entries ↔
      ∀ entry ∈ entries, entry.2.HasUniqueKeys := by
  induction entries with
  | nil => simp [EntriesHaveUniqueKeys]
  | cons first rest inductionHypothesis =>
      obtain ⟨key, value⟩ := first
      rw [EntriesHaveUniqueKeys, inductionHypothesis, List.forall_mem_cons]

/-- Reordering keeps each key where it is the only one. -/
theorem hasUniqueKeys_of_reorders
    {tree other : Node}
    (reorders : tree.Reorders other)
    (unique : tree.HasUniqueKeys) :
    other.HasUniqueKeys := by
  induction reorders with
  | refl => exact unique
  | trans _ _ firstHypothesis secondHypothesis =>
      exact secondHypothesis (firstHypothesis unique)
  | entries perm =>
      obtain ⟨distinct, inner⟩ := unique
      exact ⟨(perm.map Prod.fst).nodup_iff.mp distinct, by grind⟩
  | value before after key _ inductionHypothesis =>
      obtain ⟨distinct, inner⟩ := unique
      rw [entriesHaveUniqueKeys_iff, List.forall_mem_append,
        List.forall_mem_cons] at inner
      obtain ⟨earlier, here, later⟩ := inner
      have changed := inductionHypothesis here
      exact ⟨by simpa using distinct, by grind⟩
  | item before after _ inductionHypothesis =>
      rw [HasUniqueKeys, itemsHaveUniqueKeys_iff, List.forall_mem_append,
        List.forall_mem_cons] at unique ⊢
      obtain ⟨earlier, here, later⟩ := unique
      exact ⟨earlier, inductionHypothesis here, later⟩

/-! ## Strings -/

@[simp]
theorem stringsOfItems_append (keyPath : KeyPath) (later : List Node) :
    ∀ (index : Nat) (items : List Node),
      stringsOfItems keyPath index (items ++ later) =
        stringsOfItems keyPath index items ++
          stringsOfItems keyPath (index + items.length) later
  | index, [] => rfl
  | index, item :: rest => by
      have behind := stringsOfItems_append keyPath later (index + 1) rest
      have same : index + 1 + rest.length = index + (item :: rest).length := by
        rw [List.length_cons]
        omega
      rw [List.cons_append, stringsOfItems, stringsOfItems, behind,
        List.append_assoc, same]

@[grind =]
theorem stringsOfEntries_eq_flatMap
    (keyPath : KeyPath) (entries : List (String × Node)) :
    stringsOfEntries keyPath entries =
      entries.flatMap fun entry =>
        strings (keyPath ++ [.key entry.1]) entry.2 := by
  induction entries with
  | nil => rfl
  | cons first rest inductionHypothesis =>
      obtain ⟨key, value⟩ := first
      rw [stringsOfEntries, inductionHypothesis, List.flatMap_cons]

/-- Reordered trees have the same strings under the same key paths. -/
theorem strings_perm {tree other : Node} (reorders : tree.Reorders other) :
    ∀ keyPath, (tree.strings keyPath).Perm (other.strings keyPath) := by
  induction reorders with
  | refl =>
      intro keyPath
      exact .refl _
  | trans _ _ firstHypothesis secondHypothesis =>
      intro keyPath
      exact (firstHypothesis keyPath).trans (secondHypothesis keyPath)
  | entries perm =>
      intro keyPath
      rw [strings, strings, stringsOfEntries_eq_flatMap,
        stringsOfEntries_eq_flatMap]
      exact perm.flatMap_right _
  | value before after key _ inductionHypothesis =>
      intro keyPath
      simp only [strings, stringsOfEntries_eq_flatMap, List.flatMap_append,
        List.flatMap_cons]
      exact ((inductionHypothesis _).append_right _).append_left _
  | item before after _ inductionHypothesis =>
      intro keyPath
      simp only [strings, stringsOfItems_append, stringsOfItems]
      exact ((inductionHypothesis _).append_right _).append_left _

/-! ## Numbered mappings -/

theorem lookup_eq_of_perm
    {entries reordered : List (String × Node)} (perm : entries.Perm reordered)
    (distinct : (entries.map Prod.fst).Nodup) (key : String) :
    entries.lookup key = reordered.lookup key := by
  induction perm with
  | nil => rfl
  | cons entry _ inductionHypothesis =>
      obtain ⟨first, value⟩ := entry
      rw [List.lookup_cons, List.lookup_cons,
        inductionHypothesis (List.nodup_cons.mp distinct).2]
  | swap earlier later rest =>
      obtain ⟨earlierKey, earlierValue⟩ := earlier
      obtain ⟨laterKey, laterValue⟩ := later
      have different : laterKey ≠ earlierKey := by
        intro same
        exact (List.nodup_cons.mp distinct).1 (by simp [same])
      rw [List.lookup_cons, List.lookup_cons, List.lookup_cons,
        List.lookup_cons]
      by_cases isLater : key = laterKey
      · subst isLater
        rw [beq_self_eq_true, beq_eq_false_iff_ne.mpr different]
      · rw [beq_eq_false_iff_ne.mpr isLater]
  | trans first _ firstHypothesis secondHypothesis =>
      have distinctBetween := (first.map Prod.fst).nodup_iff.mp distinct
      rw [firstHypothesis distinct, secondHypothesis distinctBetween]

private theorem numbered?_eq_of_perm
    {entries reordered : List (String × Node)} (perm : entries.Perm reordered)
    (distinct : (entries.map Prod.fst).Nodup) :
    numbered? entries = numbered? reordered := by
  have sameLookup : (fun index : Nat => entries.lookup (toString index)) =
      fun index => reordered.lookup (toString index) := by
    funext index
    exact lookup_eq_of_perm perm distinct (toString index)
  have sameEmpty : entries.isEmpty = reordered.isEmpty := by
    rw [Bool.eq_iff_iff, List.isEmpty_iff, List.isEmpty_iff]
    constructor
    · intro same
      subst same
      exact perm.nil_eq.symm
    · intro same
      subst same
      exact perm.eq_nil
  unfold numbered?
  rw [sameEmpty, sameLookup, perm.length_eq]

private theorem mapM_rel
    {α β : Type} {related : β → β → Prop} {first second : α → Option β} :
    ∀ {list : List α}, (∀ x ∈ list, Option.Rel related (first x) (second x)) →
      Option.Rel (List.Forall₂ related) (list.mapM first) (list.mapM second)
  | [], _ => by simp
  | x :: rest, agree => by
      have here := agree x (List.mem_cons_self ..)
      have later :=
        mapM_rel fun y member => agree y (List.mem_cons_of_mem x member)
      rw [List.mapM_cons, List.mapM_cons]
      generalize first x = one, second x = other at here
      generalize rest.mapM first = ones, rest.mapM second = others at later
      cases here with
      | none => exact .none
      | some same =>
          cases later with
          | none => exact .none
          | some sames => exact .some (.cons same sames)

/-- With another value put under one key, a look-up finds what it found, or the
one value in place of the other. -/
theorem lookup_of_replaced
    (before after : List (String × Node))
    (key : String)
    (value other : Node)
    (wanted : String) :
    (before ++ (key, other) :: after).lookup wanted =
      (before ++ (key, value) :: after).lookup wanted ∨
      (before ++ (key, value) :: after).lookup wanted = some value ∧
        (before ++ (key, other) :: after).lookup wanted = some other := by
  rw [List.lookup_append, List.lookup_append]
  cases before.lookup wanted with
  | some found => exact Or.inl rfl
  | none =>
      rw [List.lookup_cons, List.lookup_cons]
      by_cases here : wanted = key
      · subst here
        rw [beq_self_eq_true]
        exact Or.inr ⟨rfl, rfl⟩
      · rw [beq_eq_false_iff_ne.mpr here]
        exact Or.inl rfl

private theorem lookup_rel
    (before after : List (String × Node))
    (key : String)
    {value other : Node}
    (inner : value.Reorders other)
    (wanted : String) :
    Option.Rel Reorders ((before ++ (key, value) :: after).lookup wanted)
      ((before ++ (key, other) :: after).lookup wanted) := by
  rcases lookup_of_replaced before after key value other wanted with
    same | ⟨found, foundOther⟩
  · rw [same]
    cases (before ++ (key, value) :: after).lookup wanted with
    | none => exact .none
    | some node => exact .some (.refl node)
  · rw [found, foundOther]
    exact .some inner

private theorem numbered?_rel
    (before after : List (String × Node))
    (key : String)
    {value other : Node}
    (inner : value.Reorders other) :
    Option.Rel (List.Forall₂ Reorders)
      (numbered? (before ++ (key, value) :: after))
      (numbered? (before ++ (key, other) :: after)) := by
  have nonempty :
      ∀ value : Node, (before ++ (key, value) :: after).isEmpty = false := by
    simp
  have sameLength :
      (before ++ (key, value) :: after).length =
          (before ++ (key, other) :: after).length := by
        simp
  unfold numbered?
  rw [nonempty value, nonempty other, sameLength]
  apply mapM_rel
  intro index _
  exact lookup_rel before after key inner (toString index)

theorem sequence_reorders
    (before : List Node)
    {items others : List Node}
    (pairwise : List.Forall₂ Reorders items others) :
    (sequence (before ++ items)).Reorders (sequence (before ++ others)) := by
  induction pairwise generalizing before with
  | nil => exact .refl _
  | @cons item other rest others inner _ inductionHypothesis =>
      have here :
          (sequence (before ++ item :: rest)).Reorders
            (sequence (before ++ other :: rest)) :=
        .item before rest inner
      have later := inductionHypothesis (before ++ [other])
      rw [List.append_assoc, List.append_assoc] at later
      exact here.trans later

private theorem ofEntries_reorders
    (before after : List (String × Node))
    (key : String)
    {value other : Node}
    (inner : value.Reorders other) :
    (ofEntries (before ++ (key, value) :: after)).Reorders
      (ofEntries (before ++ (key, other) :: after)) := by
  have together := numbered?_rel before after key inner
  unfold ofEntries
  generalize numbered? (before ++ (key, value) :: after) = items,
    numbered? (before ++ (key, other) :: after) = others at together
  cases together with
  | none => exact .value before after key inner
  | some pairwise => exact sequence_reorders [] pairwise

/-! ## Replaced strings -/

variable {meaning : String → Node}

@[simp]
theorem substituteItems_append (items later : List Node) :
    substituteItems meaning (items ++ later) =
      substituteItems meaning items ++ substituteItems meaning later := by
  induction items with
  | nil => rfl
  | cons first rest inductionHypothesis =>
      rw [List.cons_append, substituteItems, substituteItems,
        inductionHypothesis, List.cons_append]

@[grind =]
theorem substituteEntries_eq_map (entries : List (String × Node)) :
    substituteEntries meaning entries =
      entries.map fun entry => (entry.1, entry.2.substitute meaning) := by
  induction entries with
  | nil => rfl
  | cons first rest inductionHypothesis =>
      obtain ⟨key, value⟩ := first
      rw [substituteEntries, inductionHypothesis, List.map_cons]

@[simp]
theorem keys_substituteEntries (entries : List (String × Node)) :
    (substituteEntries meaning entries).map Prod.fst =
      entries.map Prod.fst := by
  rw [substituteEntries_eq_map, List.map_map]
  rfl

private theorem substituteEntries_perm
    {entries reordered : List (String × Node)} (perm : entries.Perm reordered) :
    (substituteEntries meaning entries).Perm
      (substituteEntries meaning reordered) := by
  rw [substituteEntries_eq_map, substituteEntries_eq_map]
  exact perm.map _

/-- A reordered mapping becomes the same sequence, or it keeps its own order. -/
theorem substitute_mapping_of_perm
    {entries reordered : List (String × Node)} (perm : entries.Perm reordered)
    (distinct : (entries.map Prod.fst).Nodup) :
    (∃ items, (mapping entries).substitute meaning = .sequence items ∧
      (mapping reordered).substitute meaning = .sequence items) ∨
    ((mapping entries).substitute meaning =
      .mapping (substituteEntries meaning entries) ∧
      (mapping reordered).substitute meaning =
        .mapping (substituteEntries meaning reordered)) := by
  have distinctKeys :
      ((substituteEntries meaning entries).map Prod.fst).Nodup := by
    simpa using distinct
  have same := numbered?_eq_of_perm (substituteEntries_perm perm) distinctKeys
  rw [substitute, substitute, ofEntries, ofEntries, ← same]
  cases numbered? (substituteEntries meaning entries) with
  | none => exact Or.inr ⟨rfl, rfl⟩
  | some items => exact Or.inl ⟨items, rfl, rfl⟩

/-- Replacing the strings of reordered trees gives reordered trees. -/
theorem substitute_reorders
    {tree other : Node}
    (reorders : tree.Reorders other)
    (unique : tree.HasUniqueKeys) :
    (tree.substitute meaning).Reorders (other.substitute meaning) := by
  induction reorders with
  | refl => exact .refl _
  | trans first _ firstHypothesis secondHypothesis =>
      exact (firstHypothesis unique).trans
        (secondHypothesis (hasUniqueKeys_of_reorders first unique))
  | entries perm =>
      rcases substitute_mapping_of_perm perm unique.1 with
        ⟨items, same, sameReordered⟩ | ⟨kept, keptReordered⟩
      · rw [same, sameReordered]
        exact .refl _
      · rw [kept, keptReordered]
        exact .entries (substituteEntries_perm perm)
  | @value before after key value other _ inductionHypothesis =>
      have inner := entriesHaveUniqueKeys_iff.mp unique.2 (key, value) (by simp)
      have here := inductionHypothesis inner
      simp only [substitute, substituteEntries_eq_map, List.map_append,
        List.map_cons]
      exact ofEntries_reorders _ _ key here
  | @item before after item other _ inductionHypothesis =>
      have inner := itemsHaveUniqueKeys_iff.mp unique item (by simp)
      simp only [substitute, substituteItems_append, substituteItems]
      exact .item _ _ (inductionHypothesis inner)

end ConfigTree.Node
