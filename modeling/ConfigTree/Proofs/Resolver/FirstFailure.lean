import ConfigTree.Proofs.Resolver.Result
import Mathlib.Data.List.Induction

/-!
# The first failure

A run fails exactly when a string of its tree does by itself, and it names the
first such string: its key path, as it is rendered, then one key path for each
file on the way to the cause (`run_names_first_failure`).
-/

namespace ConfigTree

/-! ## Rendered key paths -/

namespace KeyPath

/-- How a key path is written: keys joined by dots, positions in brackets, and
the root in a way of its own. -/
inductive Renders : KeyPath → String → Prop where
  | root : Renders [] "<root>"
  | key (name : String) : Renders [.key name] name
  | position
      (index : Nat) :
      Renders [.position index] ("[" ++ toString index ++ "]")
  | keyBehind
      {keyPath : KeyPath}
      {text : String}
      (name : String)
      (deeper : keyPath ≠ [])
      (above : Renders keyPath text) :
      Renders (keyPath ++ [.key name]) (text ++ "." ++ name)
  | positionBehind
      {keyPath : KeyPath}
      {text : String}
      (index : Nat)
      (deeper : keyPath ≠ [])
      (above : Renders keyPath text) :
      Renders (keyPath ++ [.position index])
        (text ++ "[" ++ toString index ++ "]")

private theorem text_append
    {keyPath : KeyPath} (deeper : keyPath ≠ []) (segment : Segment) :
    text (keyPath ++ [segment]) = keyPath.text ++ segmentText segment := by
  cases keyPath with
  | nil => exact absurd rfl deeper
  | cons first rest =>
      cases first with
      | key name => simp [text, String.join_append, String.append_assoc]
      | position index => simp [text, String.join_append, String.append_assoc]

private theorem renders_text (keyPath : KeyPath) :
    keyPath.Renders keyPath.text := by
  induction keyPath using List.reverseRecOn with
  | nil => exact .root
  | append_singleton above last inductionHypothesis =>
      by_cases top : above = []
      · subst top
        cases last with
        | key name => simpa [text] using Renders.key name
        | position index =>
            simpa [text, segmentText] using Renders.position index
      · rw [text_append top]
        cases last with
        | key name =>
            have written := Renders.keyBehind name top inductionHypothesis
            rwa [String.append_assoc] at written
        | position index =>
            have written := Renders.positionBehind index top inductionHypothesis
            rwa [String.append_assoc, String.append_assoc] at written

end KeyPath

namespace Setting

variable {setting : Setting} {cache : PackageCache} {resolving : List Path}
  {directory : Path}

private theorem exists_error_iff {tree : Node} :
    (∃ failure,
        setting.result cache resolving directory tree = .error failure) ↔
      ∃ string ∈ tree.strings [],
        ∃ failure,
          setting.result cache resolving directory (.string string.2) =
            .error failure := by
  have comesOut :
      ∀ {other : Node},
          (∃ failure,
              setting.result cache resolving directory other = .error failure) ↔
            ¬ ∃ node,
              setting.result cache resolving directory other = .ok node := by
    intro other
    cases setting.result cache resolving directory other with
    | error failure => simp
    | ok node => simp
  rw [comesOut, result_eq_ok_iff]
  push Not
  constructor
  · intro given
    obtain ⟨string, member, stuck⟩ := given
    exact ⟨string, member, comesOut.mpr fun ⟨node, ended⟩ => stuck node ended⟩
  · intro given
    obtain ⟨string, member, failed⟩ := given
    exact ⟨string, member, fun node ended => comesOut.mp failed ⟨node, ended⟩⟩

/-- A run fails exactly when a string of the tree does alone. The first such
string gives its key path, its cause and the key paths inside the files that it
leads through. -/
theorem run_names_first_failure
    (setting : Setting)
    (cache : PackageCache)
    (directory : Path)
    (tree : Node) :
    ((∃ failure, (setting.run cache directory tree).1 = .error failure) ↔
      ∃ string ∈ tree.strings [], ∃ failure,
        (setting.run cache directory (.string string.2)).1 = .error failure) ∧
    ∀ failure, (setting.run cache directory tree).1 = .error failure →
      (∃ before keyPath value after, ∃ own : Failure,
        tree.strings [] = before ++ (keyPath, value) :: after ∧
        (∀ earlier ∈ before, ∃ node,
          (setting.run cache directory (.string earlier.2)).1 = .ok node) ∧
        (setting.run cache directory (.string value)).1 = .error own ∧
        (∃ text,
          failure.keyPaths.head?.map KeyPath.text = some text ∧
          keyPath.Renders text) ∧
        failure.keyPaths.tail = own.keyPaths.tail ∧ failure.cause = own.cause) ∧
      setting.FailsAt cache [] directory tree failure.keyPaths
        failure.cause := by
  refine ⟨?_, ?_⟩
  · exact exists_error_iff
  · intro failure failed
    obtain ⟨keyPath, value, inner, ⟨before, after, split, all⟩, own, same⟩ :=
      result_eq_error_iff.mp failed
    refine ⟨⟨before, keyPath, value, after, inner.under [], split, all, own,
        ?_⟩, ?_⟩
    · subst same
      exact ⟨⟨keyPath.text, rfl, keyPath.renders_text⟩, rfl, rfl⟩
    · exact result_eq_error_iff_failsAt.mp failed

end Setting

end ConfigTree
