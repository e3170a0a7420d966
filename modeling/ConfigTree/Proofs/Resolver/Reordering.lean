import ConfigTree.Proofs.Node.Reordering
import ConfigTree.Proofs.Resolver.Result

/-!
# The order of siblings

What a string of a tree comes to does not depend on what stands beside it
(`meaning`), so reordering the mappings of a tree reorders what comes out and
what is reported, and nothing else (`run_of_reorders`).
-/

namespace ConfigTree.Setting

variable {setting : Setting} {cache : PackageCache} {directory : Path}

/-- What a string comes to when it is resolved alone. -/
def meaning
    (setting : Setting)
    (cache : PackageCache)
    (directory : Path)
    (value : String) :
    Node :=
  match setting.result cache [] directory (.string value) with
  | .ok node => node
  | .error _ => .null

private theorem meaning_eq
    (setting : Setting) (cache : PackageCache) (directory : Path) :
    setting.meaning cache directory = fun value =>
      (stringOutcome (cache.answer setting.search)
        (setting.followOutcome (cache.answer setting.search) []) directory
        value).value := by
  funext value
  unfold meaning Outcome.value
  rw [result_string, stringResult]
  cases (stringOutcome (cache.answer setting.search)
      (setting.followOutcome (cache.answer setting.search) []) directory
      value).result with
  | error failure => rfl
  | ok node => rfl

/-- A run that succeeds puts its meaning in place of each string. It reports
what the strings do and asks for their packages. -/
theorem run_of_ok
    {tree node : Node}
    (succeeded : (setting.run cache directory tree).1 = .ok node) :
    let known := cache.answer setting.search
    let handled :=
      stringOutcome known (setting.followOutcome known []) directory
    node = tree.substitute (setting.meaning cache directory) ∧
      (setting.run cache directory tree).2 =
        ⟨cache.locateAll setting.search
            ((tree.strings []).flatMap fun string => (handled string.2).asked),
          (tree.strings []).flatMap fun string =>
            (handled string.2).events⟩ := by
  intro known handled
  have ran : setting.run cache directory tree = _ :=
    run_resolveIn setting [] directory tree (.start cache)
  rw [ran] at succeeded
  have whole := Node.outcome_of_ok succeeded
  rw [ran, outcome]
  rw [outcome] at succeeded
  rw [whole] at succeeded ⊢
  cases succeeded
  rw [meaning_eq]
  exact ⟨rfl, rfl⟩

/-- Reordering the mappings of a tree changes neither whether it comes out nor
what a string in it comes to. The mappings that come out carry their entries in
the new order, the sequences that come of mappings are the same, and the same is
reported and searched for, in another order. -/
theorem run_of_reorders
    (setting : Setting)
    (cache : PackageCache)
    (directory : Path)
    {tree reordered : Node}
    (unique : tree.HasUniqueKeys) (reorders : tree.Reorders reordered) :
    ((∃ node, (setting.run cache directory tree).1 = .ok node) ↔
      ∃ node, (setting.run cache directory reordered).1 = .ok node) ∧
    (∀ node other, (setting.run cache directory tree).1 = .ok node →
      (setting.run cache directory reordered).1 = .ok other →
        node = tree.substitute (setting.meaning cache directory) ∧
        other = reordered.substitute (setting.meaning cache directory) ∧
        node.Reorders other ∧
        (setting.run cache directory tree).2.events.Perm
          (setting.run cache directory reordered).2.events ∧
        (setting.run cache directory tree).2.cache.answers.Perm
          (setting.run cache directory reordered).2.cache.answers ∧
        (setting.run cache directory tree).2.cache.searches =
          (setting.run cache directory reordered).2.cache.searches) ∧
    ∀ entries others : List (String × Node),
      entries.Perm others → (entries.map Prod.fst).Nodup →
      let meaning := setting.meaning cache directory
      (∃ items, (Node.mapping entries).substitute meaning = .sequence items ∧
        (Node.mapping others).substitute meaning = .sequence items) ∨
      ((Node.mapping entries).substitute meaning =
        .mapping (Node.substituteEntries meaning entries) ∧
        (Node.mapping others).substitute meaning =
          .mapping (Node.substituteEntries meaning others)) := by
  have strings := Node.strings_perm reorders []
  refine ⟨?_, ?_,
    fun _ _ perm distinct => Node.substitute_mapping_of_perm perm distinct⟩
  · rw [run_fst, run_fst, result_eq_ok_iff, result_eq_ok_iff]
    simp only [strings.mem_iff]
  · intro node other succeeded reorderedSucceeded
    obtain ⟨same, journal⟩ := run_of_ok succeeded
    obtain ⟨sameReordered, journalReordered⟩ := run_of_ok reorderedSucceeded
    rw [journal, journalReordered]
    refine ⟨same, sameReordered, ?_, strings.flatMap_right _,
      PackageCache.locateAll_perm (strings.flatMap_right _) cache⟩
    rw [same, sameReordered]
    exact Node.substitute_reorders reorders unique

/-- Nothing is installed. -/
def bare : Setting :=
  ⟨⟨[], []⟩, fun _ => none, true⟩

theorem run_of_reorders_bare :
    let tree :=
      Node.mapping [("a", .string "[module] p"), ("b", .string "[module] q")]
    let reordered :=
      Node.mapping [("b", .string "[module] q"), ("a", .string "[module] p")]
    tree.HasUniqueKeys ∧ tree.Reorders reordered ∧
      ∃ node other, (bare.run .empty (Path.ofText "/") tree).1 = .ok node ∧
        (bare.run .empty (Path.ofText "/") reordered).1 = .ok other ∧
        node.Reorders other ∧
        (bare.run .empty (Path.ofText "/") tree).2.events.Perm
          (bare.run .empty (Path.ofText "/") reordered).2.events := by
  intro tree reordered
  have unique : tree.HasUniqueKeys := by
    simp [tree, Node.HasUniqueKeys, Node.EntriesHaveUniqueKeys]
  have reorders : tree.Reorders reordered := .entries (.swap ..)
  have first :
      Reference.classify "[module] p" = .ok (some (.package "p" "")) := by
    decide
  have second :
      Reference.classify "[module] q" = .ok (some (.package "q" "")) := by
    decide
  obtain ⟨node, succeeded⟩ :
      ∃ node, (bare.run .empty (Path.ofText "/") tree).1 = .ok node := by
    rw [run_fst, result_eq_ok_iff]
    simp only [tree, Node.strings, Node.stringsOfEntries, List.append_nil,
      List.cons_append, List.nil_append, List.forall_mem_cons]
    exact ⟨⟨_, result_of_missing first rfl⟩, ⟨_, result_of_missing second rfl⟩,
      by simp⟩
  obtain ⟨comesOut, same, _⟩ :=
    run_of_reorders bare .empty (Path.ofText "/") unique reorders
  obtain ⟨other, reorderedSucceeded⟩ := comesOut.mp ⟨node, succeeded⟩
  obtain ⟨_, _, sameButOrder, events, _⟩ :=
    same node other succeeded reorderedSucceeded
  exact ⟨unique, reorders, node, other, succeeded, reorderedSucceeded,
    sameButOrder, events⟩

end ConfigTree.Setting
