import ConfigTree.Proofs.Node.Places
import ConfigTree.Proofs.Reference.Grammar
import ConfigTree.Proofs.Resolver.Reached

/-!
# Trees without references

A tree whose strings all stand for themselves asks nothing of its surroundings
(`run_of_isLiteral`), and one that has no numbered mapping either stays as it is
(`substitute_of_unnumbered`). What comes of a tree of the first kind is one of
the second. Main statement: `literal_tree_comes_to_rest`.
-/

namespace ConfigTree

namespace Node

/-- No string of the tree starts like a reference. -/
def IsLiteral (tree : Node) : Prop :=
  ∀ value,
    Occurs (.string value) tree → (¬∃ rest, value = "./" ++ rest) ∧ ¬∃ rest,
  value = "[module]" ++ rest

variable {tree : Node}

private theorem IsLiteral.classify
    (literal : tree.IsLiteral)
    {value : String}
    (occurs : Occurs (.string value) tree) :
    Reference.classify value = .ok none :=
  Reference.classify_eq_none_iff.mpr (literal value occurs)

/-! ## Trees that stay as they are -/

mutual

/-- With each string in its own place, a tree without numbered mappings stays as
it is. -/
theorem substitute_of_unnumbered :
    ∀ tree : Node,
      tree.HasUniqueKeys →
        (∀ entries,
          Occurs (.mapping entries) tree →
            ¬IsNumbering (entries.map Prod.fst)) →
        tree.substitute .string = tree
  | .null, _, _ => rfl
  | .bool _, _, _ => rfl
  | .number _, _, _ => rfl
  | .string _, _, _ => rfl
  | .missingPackage _, _, _ => rfl
  | .sequence items, unique, unnumbered => by
      rw [substitute,
        substituteItems_of_unnumbered items unique
          fun item member entries within =>
            unnumbered entries (.item member within)]
  | .mapping entries, ⟨distinct, unique⟩, unnumbered => by
      rw [substitute,
        substituteEntries_of_unnumbered entries unique
          fun entry member inner within =>
            unnumbered inner (.entry member within)]
      exact ofEntries_of_not_isNumbering distinct (unnumbered entries .here)

theorem substituteItems_of_unnumbered :
    ∀ items : List Node, ItemsHaveUniqueKeys items →
      (∀ item ∈ items,
        ∀ entries,
          Occurs (.mapping entries) item → ¬IsNumbering (entries.map Prod.fst))
        →
      substituteItems .string items = items
  | [], _, _ => rfl
  | item :: rest, ⟨unique, uniqueLater⟩, unnumbered => by
      obtain ⟨here, later⟩ := List.forall_mem_cons.mp unnumbered
      rw [substituteItems, substitute_of_unnumbered item unique here,
        substituteItems_of_unnumbered rest uniqueLater later]

theorem substituteEntries_of_unnumbered :
    ∀ entries : List (String × Node), EntriesHaveUniqueKeys entries →
      (∀ entry ∈ entries,
        ∀ inner,
          Occurs (.mapping inner) entry.2 → ¬IsNumbering (inner.map Prod.fst)) →
      substituteEntries .string entries = entries
  | [], _, _ => rfl
  | (key, value) :: rest, ⟨unique, uniqueLater⟩, unnumbered => by
      obtain ⟨here, later⟩ := List.forall_mem_cons.mp unnumbered
      rw [substituteEntries, substitute_of_unnumbered value unique here,
        substituteEntries_of_unnumbered rest uniqueLater later]

end

/-- What comes of a literal tree has no reference and no numbered mapping. -/
theorem settled_of_isLiteral
    (unique : tree.HasUniqueKeys) (literal : tree.IsLiteral) :
    (tree.substitute .string).Settled fun _ => False := by
  refine Settled.substitute [] tree unique ?_
  rintro ⟨keyPath, value⟩ member
  have occurs : Occurs (.string value) tree :=
    (mem_strings_iff [] tree).mp ⟨keyPath, member⟩
  refine settled_of_plain rfl fun text same refers => refers ?_
  exact string.inj same ▸ literal.classify occurs

private theorem isLiteral_substitute
    (unique : tree.HasUniqueKeys) (literal : tree.IsLiteral) :
    (tree.substitute .string).IsLiteral := by
  intro value occurs
  apply Reference.classify_eq_none_iff.mp
  by_contra refers
  exact (settled_of_isLiteral unique literal).strings value occurs refers

/-- Substituting once more changes nothing. -/
theorem substitute_substitute
    (unique : tree.HasUniqueKeys) (literal : tree.IsLiteral) :
    (tree.substitute .string).substitute .string = tree.substitute .string := by
  have settled := settled_of_isLiteral unique literal
  exact substitute_of_unnumbered _ settled.unique settled.unnumbered

/-! ## Outcomes -/

private theorem outcome_of_strings
    {handle : String → Outcome Node} {keyPath : KeyPath}
    (each :
      ∀ string ∈ tree.strings keyPath,
        handle string.2 = .pure (.string string.2)) :
    tree.outcome handle keyPath = .pure (tree.substitute .string) := by
  have all :
      ∀ string ∈ tree.strings keyPath,
        ∃ node, (handle string.2).result = .ok node :=
    fun string member => ⟨_, by rw [each string member]; rfl⟩
  have events :
      ((tree.strings keyPath).flatMap fun string => (handle string.2).events) =
        [] :=
    List.flatMap_eq_nil_iff.mpr fun string member =>
      by rw [each string member]; rfl
  have asked :
      ((tree.strings keyPath).flatMap fun string => (handle string.2).asked) =
        [] :=
    List.flatMap_eq_nil_iff.mpr fun string member =>
      by rw [each string member]; rfl
  have values :
      tree.substitute (fun value => (handle value).value) =
        tree.substitute .string :=
    substitute_congr keyPath fun string member =>
      by rw [each string member]; rfl
  unfold outcome
  rw [Outcome.through_of_forall_ok all, events, asked, values]
  rfl

end Node

namespace Setting

/-- A literal tree is resolved without a look at files, packages or options, and
leaves no trace. -/
theorem run_of_isLiteral
    {tree : Node}
    (literal : tree.IsLiteral)
    (setting : Setting)
    (cache : PackageCache)
    (directory : Path) :
    setting.run cache directory tree =
      (.ok (tree.substitute .string), .start cache) := by
  have ran : setting.run cache directory tree = _ :=
    run_resolveIn setting [] directory tree (.start cache)
  have whole :
      setting.outcome (cache.answer setting.search) [] directory tree =
        .pure (tree.substitute .string) := by
    apply Node.outcome_of_strings
    rintro ⟨keyPath, value⟩ member
    have occurs : Node.Occurs (.string value) tree :=
      (Node.mem_strings_iff [] tree).mp ⟨keyPath, member⟩
    rw [stringOutcome, literal.classify occurs]
  have sameCache : (Journal.start cache).cache = cache := rfl
  rw [ran, sameCache, whole]
  exact congrArg _ (Resolution.extend_nothing _)

end Setting

/-- A tree without references comes out the same from every base, whatever
files, packages, cache and options there are: nothing is reported, nothing
searched for, and the cache stays as it was. What comes out stays as it is when
it is resolved again, and is the tree itself if no mapping in the tree is
numbered. -/
theorem literal_tree_comes_to_rest
    {tree : Node} (unique : tree.HasUniqueKeys) (literal : tree.IsLiteral) :
    ∃ result,
      (∀ resolver files source cache,
        Resolver.resolveWithCache files resolver source cache tree =
          (.ok result, .start cache) ∧
        Resolver.resolveWithCache files resolver source cache result =
          (.ok result, .start cache)) ∧
      (∀ (setting : Setting) cache directory,
        setting.run cache directory tree = (.ok result, .start cache) ∧
        setting.run cache directory result = (.ok result, .start cache)) ∧
      ((∀ entries, Node.Occurs (.mapping entries) tree →
        ¬∃ count,
        0 < count ∧
        ∀ key,
          key ∈ entries.map Prod.fst ↔ ∃ index < count, key = toString index) →
        result = tree) := by
  have runs : ∀ (setting : Setting) cache directory,
      setting.run cache directory tree =
        (.ok (tree.substitute .string), .start cache) ∧
      setting.run cache directory (tree.substitute .string) =
          (.ok (tree.substitute .string), .start cache) := by
    intro setting cache directory
    have again :=
      setting.run_of_isLiteral (Node.isLiteral_substitute unique literal) cache
        directory
    rw [Node.substitute_substitute unique literal] at again
    exact ⟨setting.run_of_isLiteral literal cache directory, again⟩
  refine ⟨tree.substitute .string, ?_, runs,
    Node.substitute_of_unnumbered tree unique⟩
  intro resolver files source cache
  obtain ⟨base, seen, ran⟩ :=
    Setting.exists_run_of_resolveWithCache resolver files source cache tree
  obtain ⟨other, again, rerun⟩ :=
    Setting.exists_run_of_resolveWithCache resolver files source cache
      (tree.substitute .string)
  rw [ran, rerun]
  exact ⟨(runs _ cache base).1, (runs _ cache other).2⟩

/-- A list within a list, and a text that only looks like a reference. -/
theorem literal_tree_comes_to_rest_nestedLists :
    let tree :=
      Node.mapping
        [("1", .mapping [("0", .string "../up")]), ("0", .missingPackage "p")]
    let result :=
      Node.sequence [.missingPackage "p", .sequence [.string "../up"]]
    tree.HasUniqueKeys ∧ tree.IsLiteral ∧
      ∀ (setting : Setting) cache directory,
        setting.run cache directory tree = (.ok result, .start cache) ∧
        setting.run cache directory result = (.ok result, .start cache) := by
  intro tree result
  have unique : tree.HasUniqueKeys := by
    simp [tree, Node.HasUniqueKeys, Node.EntriesHaveUniqueKeys]
  have literal : tree.IsLiteral := by
    intro value occurs
    obtain ⟨keyPath, member⟩ := (Node.mem_strings_iff [] tree).mpr occurs
    have only : value = "../up" := by
      simp [tree, Node.strings, Node.stringsOfEntries] at member
      exact member.2
    exact Reference.classify_eq_none_iff.mp (only ▸ by decide)
  obtain ⟨found, _, runs, _⟩ := literal_tree_comes_to_rest unique literal
  have same : found = result := by
    have ran :=
      (runs ⟨⟨[], []⟩, fun _ => none, false⟩ .empty (Path.ofText "/")).1
    have comes :
        (Setting.run ⟨⟨[], []⟩, fun _ => none, false⟩ .empty (Path.ofText "/")
            tree).1 = .ok result := by
      rfl
    rw [ran] at comes
    exact Except.ok.inj comes
  exact ⟨unique, literal, same ▸ runs⟩

end ConfigTree
