import ConfigTree.Proofs.Node.Strings
import ConfigTree.Proofs.Resolver.Outcome

/-!
# Going through the strings of a tree

Main statements: the outcome of a tree is that of its strings one after the
other (`hasOutcome_resolveWith`), and it fails with the first of them that fails
(`through_eq_error_iff`).
-/

namespace ConfigTree

namespace Outcome

/-- The outcome of strings one after the other, up to the first that fails. -/
def through
    (handle : String → Outcome Node) :
    List (KeyPath × String) → Outcome Unit
  | [] => pure ()
  | (keyPath, value) :: rest =>
      ((handle value).under keyPath).bind fun _ => through handle rest

variable {handle : String → Outcome Node}

@[simp]
theorem through_append (strings later : List (KeyPath × String)) :
    through handle (strings ++ later) =
      (through handle strings).bind fun _ => through handle later := by
  induction strings with
  | nil =>
      rw [List.nil_append, through, pure_bind]
  | cons first rest inductionHypothesis =>
      obtain ⟨keyPath, value⟩ := first
      rw [List.cons_append, through, through, bind_assoc, inductionHypothesis]

private theorem under_of_ok
    {outcome : Outcome Node}
    {node : Node}
    (succeeded : outcome.result = .ok node)
    (keyPath : KeyPath) : (outcome.under keyPath).result = .ok node := by
  rw [under, succeeded]
  rfl

private theorem under_of_error
    {outcome : Outcome Node}
    {failure : Failure}
    (failed : outcome.result = .error failure)
    (keyPath : KeyPath) :
    (outcome.under keyPath).result = .error (failure.under keyPath) := by
  rw [under, failed]
  rfl

theorem through_cons_of_ok
    {value : String}
    {node : Node}
    (succeeded : (handle value).result = .ok node)
    (keyPath : KeyPath) (rest : List (KeyPath × String)) :
    through handle ((keyPath, value) :: rest) =
      ⟨(through handle rest).result,
        (handle value).events ++ (through handle rest).events,
        (handle value).asked ++ (through handle rest).asked⟩ := by
  rw [through, bind_of_ok (under_of_ok succeeded keyPath)]
  rfl

theorem through_cons_of_error
    {value : String}
    {failure : Failure}
    (failed : (handle value).result = .error failure)
    (keyPath : KeyPath) (rest : List (KeyPath × String)) :
    through handle ((keyPath, value) :: rest) =
      ⟨.error (failure.under keyPath), (handle value).events,
        (handle value).asked⟩ := by
  rw [through, bind_of_error (under_of_error failed keyPath)]
  rfl

/-- All strings are gone through exactly when each of them comes out. -/
theorem through_eq_ok_iff {strings : List (KeyPath × String)} :
    (through handle strings).result = .ok () ↔
      ∀ string ∈ strings, ∃ node, (handle string.2).result = .ok node := by
  induction strings with
  | nil => simp [through, pure]
  | cons first rest inductionHypothesis =>
      obtain ⟨keyPath, value⟩ := first
      rw [List.forall_mem_cons]
      cases ended : (handle value).result with
      | error failure =>
          rw [through_cons_of_error ended]
          constructor
          · intro none
            cases none
          · intro given
            obtain ⟨⟨node, succeeded⟩, _⟩ := given
            cases succeeded
      | ok node =>
          rw [through_cons_of_ok ended, inductionHypothesis]
          constructor
          · intro all
            exact ⟨⟨node, rfl⟩, all⟩
          · exact And.right

/-- What fails is the first string that does not come out, under its key
path. -/
theorem through_eq_error_iff
    {strings : List (KeyPath × String)} {failure : Failure} :
    (through handle strings).result = .error failure ↔
      ∃ before keyPath value after own,
        strings = before ++ (keyPath, value) :: after ∧
        (∀ string ∈ before, ∃ node, (handle string.2).result = .ok node) ∧
        (handle value).result = .error own ∧ failure = own.under keyPath := by
  induction strings with
  | nil => simp [through, pure]
  | cons first rest inductionHypothesis =>
      obtain ⟨firstPath, firstValue⟩ := first
      cases ended : (handle firstValue).result with
      | error firstFailure =>
          rw [through_cons_of_error ended]
          constructor
          · intro same
            cases same
            exact ⟨[], firstPath, firstValue, rest, firstFailure, rfl, by simp,
              ended, rfl⟩
          · intro given
            obtain ⟨before, keyPath, value, after, own, split, all, failed,
                rfl⟩ :=
              given
            cases before with
            | nil =>
                cases split
                rw [ended] at failed
                cases failed
                rfl
            | cons earlier others =>
                cases split
                obtain ⟨node, succeeded⟩ :=
                  all (firstPath, firstValue) (List.mem_cons_self ..)
                rw [ended] at succeeded
                cases succeeded
      | ok node =>
          rw [through_cons_of_ok ended, inductionHypothesis]
          constructor
          · intro given
            obtain ⟨before, keyPath, value, after, own, rfl, all, failed,
                rfl⟩ :=
              given
            refine ⟨(firstPath, firstValue) :: before, keyPath, value, after,
              own, rfl, ?_, failed, rfl⟩
            exact List.forall_mem_cons.mpr ⟨⟨node, ended⟩, all⟩
          · intro given
            obtain ⟨before, keyPath, value, after, own, split, all, failed,
                rfl⟩ :=
              given
            cases before with
            | nil =>
                cases split
                rw [ended] at failed
                cases failed
            | cons earlier others =>
                cases split
                have later := (List.forall_mem_cons.mp all).2
                exact ⟨others, keyPath, value, after, own, rfl, later, failed,
                  rfl⟩

/-- Strings that all come out report and ask for what each of them does. -/
theorem through_of_forall_ok {strings : List (KeyPath × String)}
    (all : ∀ string ∈ strings, ∃ node, (handle string.2).result = .ok node) :
    through handle strings =
      ⟨.ok (), strings.flatMap fun string => (handle string.2).events,
        strings.flatMap fun string => (handle string.2).asked⟩ := by
  induction strings with
  | nil => rfl
  | cons first rest inductionHypothesis =>
      obtain ⟨keyPath, value⟩ := first
      obtain ⟨⟨node, ended⟩, later⟩ := List.forall_mem_cons.mp all
      rw [through_cons_of_ok ended, inductionHypothesis later]
      rfl

end Outcome

namespace Node

/-- The outcome of a tree whose strings have the given outcomes. -/
def outcome
    (handle : String → Outcome Node) (keyPath : KeyPath) (tree : Node) :
    Outcome Node :=
  (Outcome.through handle (tree.strings keyPath)).map fun _ =>
    tree.substitute fun value => (handle value).value

/-- Every string of a tree that comes out comes out. -/
theorem forall_ok_of_outcome
    {handled : String → Outcome Node} {keyPath : KeyPath} {tree node : Node}
    (succeeded : (tree.outcome handled keyPath).result = .ok node) :
    ∀ string ∈ tree.strings keyPath,
      ∃ found, (handled string.2).result = .ok found := by
  apply Outcome.through_eq_ok_iff.mp
  unfold outcome Outcome.map at succeeded
  cases ended : (Outcome.through handled (tree.strings keyPath)).result with
  | error failure =>
      rw [ended] at succeeded
      cases succeeded
  | ok nothing => rfl

/-- A tree that comes out has its strings replaced, and reports and asks for
what each of them does. -/
theorem outcome_of_ok
    {handled : String → Outcome Node} {keyPath : KeyPath} {tree node : Node}
    (succeeded : (tree.outcome handled keyPath).result = .ok node) :
    tree.outcome handled keyPath =
      ⟨.ok (tree.substitute fun value => (handled value).value),
        (tree.strings keyPath).flatMap fun string => (handled string.2).events,
        (tree.strings keyPath).flatMap fun string =>
            (handled string.2).asked⟩ := by
  unfold outcome
  rw [Outcome.through_of_forall_ok (forall_ok_of_outcome succeeded)]
  rfl

section Traversal

open Resolution (HasOutcome)

variable {search known : String → Option String}
  {handle : String → Resolution Node}
  {handled : String → Outcome Node}

@[simp]
theorem outcome_string (keyPath : KeyPath) (value : String) :
    outcome handled keyPath (.string value) =
      (handled value).under keyPath := by
  unfold outcome
  rw [strings, substitute]
  cases ended : (handled value).result with
  | error failure =>
      have endedUnder := Outcome.under_of_error ended keyPath
      rw [Outcome.through_cons_of_error ended]
      simp only [Outcome.map, Except.map]
      rw [← endedUnder]
      rfl
  | ok node =>
      have endedUnder := Outcome.under_of_ok ended keyPath
      have found : (handled value).value = node := by
        simp only [Outcome.value, ended]
      rw [Outcome.through_cons_of_ok ended, found]
      simp only [Outcome.map, Except.map, Outcome.through, Outcome.pure,
        List.append_nil]
      rw [← endedUnder]
      rfl

mutual

theorem hasOutcome_resolveWith
    (does : ∀ value, HasOutcome search known (handle value) (handled value))
    (keyPath : KeyPath) :
    ∀ tree : Node,
      HasOutcome search known (tree.resolveWith handle keyPath)
        (tree.outcome handled keyPath)
  | .string value => by
      rw [resolveWith, outcome_string]
      exact Resolution.hasOutcome_under keyPath (does value)
  | .sequence items => by
      have whole :=
        Resolution.hasOutcome_bind
          (hasOutcome_resolveItems does keyPath 0 items) fun items _ =>
          Resolution.hasOutcome_pure (Node.sequence items)
      simpa only [resolveWith, outcome, strings, substitute,
        Outcome.map_eq_bind, Outcome.bind_assoc, Outcome.pure_bind] using
        whole
  | .mapping entries => by
      have whole :=
        Resolution.hasOutcome_bind
          (hasOutcome_resolveEntries does keyPath entries) fun entries _ =>
          Resolution.hasOutcome_pure (ofEntries entries)
      simpa only [resolveWith, outcome, strings, substitute,
        Outcome.map_eq_bind, Outcome.bind_assoc, Outcome.pure_bind] using
        whole
  | .null => Resolution.hasOutcome_pure Node.null
  | .bool value => Resolution.hasOutcome_pure (Node.bool value)
  | .number value => Resolution.hasOutcome_pure (Node.number value)
  | .missingPackage name =>
      Resolution.hasOutcome_pure (Node.missingPackage name)

theorem hasOutcome_resolveItems
    (does : ∀ value, HasOutcome search known (handle value) (handled value))
    (keyPath : KeyPath) :
    ∀ (index : Nat) (items : List Node),
      HasOutcome search known (resolveItems handle keyPath index items)
        ((Outcome.through handled (stringsOfItems keyPath index items)).map
          fun _ =>
            substituteItems (fun value => (handled value).value) items)
  | _, [] => Resolution.hasOutcome_pure []
  | index, item :: rest => by
      have first :=
        hasOutcome_resolveWith does (keyPath ++ [.position index]) item
      have later := hasOutcome_resolveItems does keyPath (index + 1) rest
      have whole := Resolution.hasOutcome_bind first fun value _ =>
        Resolution.hasOutcome_bind later fun values _ =>
          Resolution.hasOutcome_pure (value :: values)
      rw [stringsOfItems, Outcome.through_append, substituteItems]
      simpa only [resolveItems, outcome, Outcome.map_eq_bind,
        Outcome.bind_assoc, Outcome.pure_bind] using
        whole

theorem hasOutcome_resolveEntries
    (does : ∀ value, HasOutcome search known (handle value) (handled value))
    (keyPath : KeyPath) :
    ∀ entries : List (String × Node),
      HasOutcome search known (resolveEntries handle keyPath entries)
        ((Outcome.through handled (stringsOfEntries keyPath entries)).map
          fun _ =>
            substituteEntries (fun value => (handled value).value) entries)
  | [] => Resolution.hasOutcome_pure []
  | (key, value) :: rest => by
      have first := hasOutcome_resolveWith does (keyPath ++ [.key key]) value
      have later := hasOutcome_resolveEntries does keyPath rest
      have whole := Resolution.hasOutcome_bind first fun resolved _ =>
        Resolution.hasOutcome_bind later fun entries _ =>
          Resolution.hasOutcome_pure ((key, resolved) :: entries)
      rw [stringsOfEntries, Outcome.through_append, substituteEntries]
      simpa only [resolveEntries, outcome, Outcome.map_eq_bind,
        Outcome.bind_assoc, Outcome.pure_bind] using
        whole

end

end Traversal

end Node

end ConfigTree
