import ConfigTree.Proofs.Node.Missing
import ConfigTree.Proofs.Resolver.Visits

/-!
# Reports

What a run reports is one event for each package reference that it comes to, and
the marks of missing packages in a resolved tree are those of the tree itself
and one for each package that was reported as not found
(`run_reports_each_reference`).
-/

namespace ConfigTree

namespace Node

mutual

/-- The marks in a tree whose strings are replaced are its own and those of what
stands for its strings. -/
theorem countMissing_substitute
    (name : String) (meaning : String → Node) (keyPath : KeyPath) :
    ∀ tree : Node, (tree.substitute meaning).countMissing name =
      tree.countMissing name +
        ((tree.strings keyPath).map fun string =>
          (meaning string.2).countMissing name).sum
  | .string value => by simp [substitute, countMissing, strings]
  | .sequence items => countMissing_substituteItems name meaning keyPath 0 items
  | .mapping entries => by
      rw [substitute, countMissing_ofEntries,
        countMissing_substituteEntries name meaning keyPath entries]
      rfl
  | .null => rfl
  | .bool _ => rfl
  | .number _ => rfl
  | .missingPackage _ => rfl

theorem countMissing_substituteItems
    (name : String) (meaning : String → Node) (keyPath : KeyPath) :
    ∀ (index : Nat) (items : List Node),
      countMissingItems name (substituteItems meaning items) =
        countMissingItems name items +
          ((stringsOfItems keyPath index items).map fun string =>
            (meaning string.2).countMissing name).sum
  | _, [] => rfl
  | index, item :: rest => by
      have first :=
        countMissing_substitute name meaning (keyPath ++ [.position index]) item
      have later :=
        countMissing_substituteItems name meaning keyPath (index + 1) rest
      rw [substituteItems, countMissingItems, countMissingItems, stringsOfItems,
        List.map_append, List.sum_append_nat]
      omega

theorem countMissing_substituteEntries
    (name : String) (meaning : String → Node) (keyPath : KeyPath) :
    ∀ entries : List (String × Node),
      countMissingEntries name (substituteEntries meaning entries) =
        countMissingEntries name entries +
          ((stringsOfEntries keyPath entries).map fun string =>
            (meaning string.2).countMissing name).sum
  | [] => rfl
  | (key, value) :: rest => by
      have first :=
        countMissing_substitute name meaning (keyPath ++ [.key key]) value
      have later := countMissing_substituteEntries name meaning keyPath rest
      rw [substituteEntries, countMissingEntries, countMissingEntries,
        stringsOfEntries, List.map_append, List.sum_append_nat]
      omega

end

end Node

/-! ## Marks and events -/

namespace Outcome

/-- If a node comes out, it holds one mark for each package of the name that is
reported as not found, besides those that were there. -/
def MarksMissing
    (name : String) (before : Nat) (outcome : Outcome Node) :
    Prop :=
  ∀ node,
    outcome.result = .ok node →
      node.countMissing name = before + outcome.events.count (.notFound name)

private theorem marksMissing_of_node
    {name : String} {node : Node} (noMarks : node.countMissing name = 0) :
    (pure node).MarksMissing name 0 := by
  intro other same
  obtain rfl := Except.ok.inj same
  exact noMarks

private theorem marksMissing_outcome
    {name : String}
    {handled : String → Outcome Node}
    (each : ∀ value, (handled value).MarksMissing name 0)
    (keyPath : KeyPath) (tree : Node) :
    (tree.outcome handled keyPath).MarksMissing name
      (tree.countMissing name) := by
  intro node succeeded
  have whole := Node.outcome_of_ok succeeded
  have all :
      ∀ string ∈ tree.strings keyPath,
        ∃ other, (handled string.2).result = .ok other := by
    apply through_eq_ok_iff.mp
    unfold Node.outcome Outcome.map at succeeded
    cases ended : (through handled (tree.strings keyPath)).result with
    | error failure =>
        rw [ended] at succeeded
        cases succeeded
    | ok nothing => rfl
  rw [whole] at succeeded ⊢
  obtain rfl := Except.ok.inj succeeded
  have marks :
      (tree.strings keyPath).map
          (fun string => ((handled string.2).value).countMissing name) =
        (tree.strings keyPath).map
          (List.count (Event.notFound name) ∘
            fun string => (handled string.2).events) := by
    apply List.map_congr_left
    intro string member
    obtain ⟨other, ended⟩ := all string member
    have counted := each string.2 other ended
    rw [Nat.zero_add] at counted
    rw [Outcome.value, ended]
    exact counted
  rw [Node.countMissing_substitute name _ keyPath, List.count_flatMap, marks]

end Outcome

namespace Setting

private theorem countMissing_of_inspect
    {setting : Setting} {path : Path} {node : Node} {composite : Bool}
    (found : setting.inspect path = .ok (node, composite)) (name : String) :
    node.countMissing name = 0 := by
  unfold inspect at found
  split at found
  · cases found
  · cases found
  · cases found
    rfl
  · split at found
    · cases found
    · rename_i read
      cases found
      unfold readTarget at read
      split at read
      · cases read
      · split at read
        · cases read
        · rename_i converted
          cases read
          exact Node.countMissing_of_toNode converted name

private theorem marksMissing_stringOutcome
    {name : String}
    {followed : Path → Outcome Node}
    (each : ∀ path, (followed path).MarksMissing name 0)
    (known : String → Option String) (directory : Path) (value : String) :
    (stringOutcome known followed directory value).MarksMissing name 0 := by
  unfold stringOutcome
  rcases Reference.classify value with
    reason | (_ | (text | ⟨package, subpath⟩))
  · intro node failed
    cases failed
  · exact Outcome.marksMissing_of_node rfl
  · exact each _
  · intro node succeeded
    cases answer : known package with
    | none =>
        simp only [answer, packageOutcome] at succeeded ⊢
        cases succeeded
        by_cases same : package = name
        · simp [Node.countMissing, same]
        · simp [Node.countMissing, same]
    | some root =>
        simp only [answer, packageOutcome] at succeeded ⊢
        rw [List.count_cons_of_ne (by simp)]
        exact each _ node succeeded

private theorem marksMissing_followOutcome
    (setting : Setting)
    (known : String → Option String)
    (name : String)
    (resolving : List Path)
    (path : Path) :
    (setting.followOutcome known resolving path).MarksMissing name 0 := by
  rw [followOutcome_eq]
  split
  · intro node failed
    cases failed
  · rename_i node found
    exact Outcome.marksMissing_of_node (countMissing_of_inspect found name)
  · rename_i node found
    by_cases entered : path ∈ resolving
    · rw [if_pos entered]
      intro other failed
      cases failed
    · rw [if_neg entered]
      have shorter := Path.room_cons_lt (length_le_of_inspect found) entered
      have each :=
        fun path' => setting.marksMissing_followOutcome known name
          (path :: resolving) path'
      have inside :=
        Outcome.marksMissing_outcome
          (marksMissing_stringOutcome each known (homeOf path)) [] node
      rwa [countMissing_of_inspect found name] at inside
termination_by Path.room FileSystem.pathLimit resolving

/-- A run comes to the strings of one list of visits, and reports one event for
each package reference among them, in their order: that the package was found,
with the path of the reference, or that it was not. A run that fails comes to
the string that it names last. What comes out holds the marks of missing
packages that the tree holds and one for each that was reported. -/
theorem run_reports_each_reference
    (setting : Setting)
    (cache : PackageCache)
    (directory : Path)
    (tree : Node) :
    ∃ visits,
      setting.Visits cache [] directory
        (setting.comesTo cache [] directory tree) visits ∧
      (∀ other,
        setting.Visits cache [] directory
          (setting.comesTo cache [] directory tree) other → other = visits) ∧
      (setting.run cache directory tree).2.events =
        visits.filterMap (Visit.event? (cache.answer setting.search)) ∧
      (∀ failure,
        (setting.run cache directory tree).1 = .error failure →
          visits.getLast?.map Visit.keyPaths = some failure.keyPaths) ∧
      ∀ node,
        (setting.run cache directory tree).1 = .ok node →
          ∀ name,
            node.countMissing name =
              tree.countMissing name +
                (setting.run cache directory tree).2.events.count
                  (.notFound name) := by
  obtain ⟨visits, visited⟩ := exists_visits setting cache [] directory tree
  have ran : setting.run cache directory tree = _ :=
    run_resolveIn setting [] directory tree (.start cache)
  have reported : (setting.run cache directory tree).2.events =
      (setting.outcome (cache.answer setting.search) [] directory
          tree).events := by
    rw [ran]
    rfl
  refine ⟨visits, visited, fun other again => visits_unique again visited, ?_,
    ?_, ?_⟩
  · rw [reported]
    exact events_outcome visited
  · intro failure failed
    exact getLast?_visits (failsAt_of_result failed) visited
  · intro node succeeded name
    rw [run_fst, result_eq] at succeeded
    rw [reported]
    have each :=
      setting.marksMissing_followOutcome (cache.answer setting.search) name []
    exact Outcome.marksMissing_outcome
      (marksMissing_stringOutcome each _ directory) [] tree node succeeded

end Setting

end ConfigTree
