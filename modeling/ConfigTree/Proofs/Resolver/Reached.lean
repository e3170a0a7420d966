import ConfigTree.Proofs.Resolver.Through

/-!
# The strings that are come to

Going through strings stops at the first that fails. What is reported and asked
for on the way is what the strings up to there do (`events_through`,
`asked_through`), and nothing but what becomes of these matters for what becomes
of the tree (`Node.outcome_congr`).
-/

namespace ConfigTree

/-- The part of a list up to the first element that does not pass, and that
element. -/
def upTo {α : Type} (passes : α → Bool) (list : List α) : List α :=
  list.takeWhile passes ++ (list.dropWhile passes).take 1

section UpTo

variable {α : Type} {passes : α → Bool} {first : α}
  {rest before after list : List α}

private theorem upTo_cons_of_pass (pass : passes first = true) :
    upTo passes (first :: rest) = first :: upTo passes rest := by
  unfold upTo
  rw [List.takeWhile_cons_of_pos pass, List.dropWhile_cons_of_pos pass,
    List.cons_append]

private theorem upTo_cons_of_stop (stop : passes first = false) :
    upTo passes (first :: rest) = [first] := by
  have notPass : ¬ passes first = true := by simp [stop]
  unfold upTo
  rw [List.takeWhile_cons_of_neg notPass, List.dropWhile_cons_of_neg notPass]
  rfl

theorem upTo_append_of_stop
    (pass : ∀ x ∈ before, passes x = true) (stop : passes first = false) :
    upTo passes (before ++ first :: after) = before ++ [first] := by
  induction before with
  | nil => exact upTo_cons_of_stop stop
  | cons earlier others inductionHypothesis =>
      obtain ⟨here, later⟩ := List.forall_mem_cons.mp pass
      rw [List.cons_append, upTo_cons_of_pass here, inductionHypothesis later,
        List.cons_append]

private theorem upTo_of_pass
    (pass : ∀ x ∈ list, passes x = true) :
    upTo passes list = list := by
  induction list with
  | nil => rfl
  | cons first rest inductionHypothesis =>
      obtain ⟨here, later⟩ := List.forall_mem_cons.mp pass
      rw [upTo_cons_of_pass here, inductionHypothesis later]

theorem mem_of_mem_upTo {x : α} (member : x ∈ upTo passes list) : x ∈ list := by
  induction list with
  | nil => exact absurd member List.not_mem_nil
  | cons first rest inductionHypothesis =>
      cases decided : passes first with
      | false =>
          rw [upTo_cons_of_stop decided] at member
          exact List.mem_cons.mpr (Or.inl (List.mem_singleton.mp member))
      | true =>
          rw [upTo_cons_of_pass decided] at member
          rcases List.mem_cons.mp member with here | later
          · exact List.mem_cons.mpr (Or.inl here)
          · exact List.mem_cons_of_mem _ (inductionHypothesis later)

end UpTo

namespace Outcome

/-- The strings that going through them comes to. -/
def reached
    (handle : String → Outcome Node) (strings : List (KeyPath × String)) :
    List (KeyPath × String) :=
  upTo (fun string => (handle string.2).result.isOk) strings

variable {handle other : String → Outcome Node} {first : KeyPath × String}
  {rest strings : List (KeyPath × String)}

private theorem reached_cons_of_ok
    {node : Node} (succeeded : (handle first.2).result = .ok node) :
    reached handle (first :: rest) = first :: reached handle rest :=
  upTo_cons_of_pass (by rw [succeeded]; rfl)

private theorem reached_cons_of_error
    {failure : Failure} (failed : (handle first.2).result = .error failure) :
    reached handle (first :: rest) = [first] :=
  upTo_cons_of_stop (by rw [failed]; rfl)

/-- Strings report what each one that is come to does, in order. -/
theorem events_through :
    (through handle strings).events =
      (reached handle strings).flatMap fun string =>
        (handle string.2).events := by
  induction strings with
  | nil => rfl
  | cons first rest inductionHypothesis =>
      cases ended : (handle first.2).result with
      | error failure =>
          rw [through_cons_of_error ended, reached_cons_of_error ended,
            List.flatMap_singleton]
      | ok node =>
          rw [through_cons_of_ok ended, reached_cons_of_ok ended,
            List.flatMap_cons, inductionHypothesis]

/-- Strings ask for what each one that is come to does, in order. -/
theorem asked_through :
    (through handle strings).asked =
      (reached handle strings).flatMap fun string =>
        (handle string.2).asked := by
  induction strings with
  | nil => rfl
  | cons first rest inductionHypothesis =>
      cases ended : (handle first.2).result with
      | error failure =>
          rw [through_cons_of_error ended, reached_cons_of_error ended,
            List.flatMap_singleton]
      | ok node =>
          rw [through_cons_of_ok ended, reached_cons_of_ok ended,
            List.flatMap_cons, inductionHypothesis]

/-- Only what becomes of the strings that are come to matters. -/
theorem through_congr
    (same :
      ∀ string ∈ reached handle strings, other string.2 = handle string.2) :
    through other strings = through handle strings := by
  induction strings with
  | nil => rfl
  | cons first rest inductionHypothesis =>
      obtain ⟨keyPath, value⟩ := first
      cases ended : (handle value).result with
      | error failure =>
          rw [reached_cons_of_error ended] at same
          have here : other value = handle value :=
            same (keyPath, value) (List.mem_singleton.mpr rfl)
          rw [through_cons_of_error ended, through_cons_of_error (here ▸ ended),
            here]
      | ok node =>
          rw [reached_cons_of_ok ended] at same
          obtain ⟨here, later⟩ := List.forall_mem_cons.mp same
          rw [through, through, inductionHypothesis later, here]

end Outcome

namespace Node

variable {handle other : String → Outcome Node}
  {meaning changed : String → Node}

theorem events_outcome (keyPath : KeyPath) (tree : Node) :
    (tree.outcome handle keyPath).events =
      (Outcome.reached handle (tree.strings keyPath)).flatMap fun string =>
        (handle string.2).events :=
  Outcome.events_through

theorem asked_outcome (keyPath : KeyPath) (tree : Node) :
    (tree.outcome handle keyPath).asked =
      (Outcome.reached handle (tree.strings keyPath)).flatMap fun string =>
        (handle string.2).asked :=
  Outcome.asked_through

mutual

/-- Only what stands for the strings of a tree matters for what comes of it. -/
theorem substitute_congr (keyPath : KeyPath) :
    ∀ {tree : Node},
      (∀ string ∈ tree.strings keyPath, changed string.2 = meaning string.2) →
        tree.substitute changed = tree.substitute meaning
  | .string value, same => same (keyPath, value) (List.mem_singleton.mpr rfl)
  | .sequence _, same =>
      congrArg Node.sequence (substituteItems_congr keyPath 0 same)
  | .mapping _, same =>
      congrArg ofEntries (substituteEntries_congr keyPath same)
  | .null, _ => rfl
  | .bool _, _ => rfl
  | .number _, _ => rfl
  | .missingPackage _, _ => rfl

theorem substituteItems_congr (keyPath : KeyPath) :
    ∀ (index : Nat) {items : List Node},
      (∀ string ∈ stringsOfItems keyPath index items,
        changed string.2 = meaning string.2) →
        substituteItems changed items = substituteItems meaning items
  | _, [], _ => rfl
  | index, item :: rest, same => by
      rw [stringsOfItems, List.forall_mem_append] at same
      rw [substituteItems, substituteItems, substitute_congr _ same.1,
        substituteItems_congr keyPath (index + 1) same.2]

theorem substituteEntries_congr (keyPath : KeyPath) :
    ∀ {entries : List (String × Node)},
      (∀ string ∈ stringsOfEntries keyPath entries,
        changed string.2 = meaning string.2) →
        substituteEntries changed entries = substituteEntries meaning entries
  | [], _ => rfl
  | (key, value) :: rest, same => by
      rw [stringsOfEntries, List.forall_mem_append] at same
      rw [substituteEntries, substituteEntries, substitute_congr _ same.1,
        substituteEntries_congr keyPath same.2]

end

/-- Two ways of handling strings that agree on those that are come to make the
same of a tree. -/
theorem outcome_congr {keyPath : KeyPath} {tree : Node}
    (same :
      ∀ string ∈ Outcome.reached handle (tree.strings keyPath),
        other string.2 = handle string.2) :
    tree.outcome other keyPath = tree.outcome handle keyPath := by
  unfold outcome
  rw [Outcome.through_congr same]
  cases ended : (Outcome.through handle (tree.strings keyPath)).result with
  | error failure => simp only [Outcome.map, ended, Except.map]
  | ok nothing =>
      have all := Outcome.through_eq_ok_iff.mp ended
      have whole :
          Outcome.reached handle (tree.strings keyPath) =
            tree.strings keyPath := by
        apply upTo_of_pass
        intro string member
        obtain ⟨node, succeeded⟩ := all string member
        rw [succeeded]
        rfl
      rw [whole] at same
      have values : tree.substitute (fun value => (other value).value) =
          tree.substitute fun value => (handle value).value :=
        substitute_congr keyPath fun string member => by rw [same string member]
      rw [values]

end Node

end ConfigTree
