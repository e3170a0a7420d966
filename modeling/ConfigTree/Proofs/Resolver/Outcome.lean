import ConfigTree.Proofs.Package.Answers
import ConfigTree.Resolver.Journal

/-!
# Outcomes of resolutions

What a resolution does to the journal it starts with depends on that journal
only through the answers of its cache. Its outcome says what it does: the
result, the events it reports and the packages it asks for.
-/

namespace ConfigTree

structure Outcome (α : Type) where
  result : Except Failure α
  /-- The events in the order they are reported. -/
  events : List Event
  /-- The names asked for, in order, as often as they are. -/
  asked : List String

namespace Outcome

variable {α β γ : Type}

def pure (value : α) : Outcome α :=
  ⟨.ok value, [], []⟩

def fail (failure : Failure) : Outcome α :=
  ⟨.error failure, [], []⟩

def bind (outcome : Outcome α) (next : α → Outcome β) : Outcome β :=
  match outcome.result with
  | .error failure => ⟨.error failure, outcome.events, outcome.asked⟩
  | .ok value =>
    ⟨(next value).result, outcome.events ++ (next value).events,
      outcome.asked ++ (next value).asked⟩

def map (convert : α → β) (outcome : Outcome α) : Outcome β :=
  ⟨outcome.result.map convert, outcome.events, outcome.asked⟩

def under (keyPath : KeyPath) (outcome : Outcome α) : Outcome α :=
  ⟨outcome.result.mapError (·.under keyPath), outcome.events, outcome.asked⟩

/-- The node that comes out, if one does. -/
def value (outcome : Outcome Node) : Node :=
  match outcome.result with
  | .ok node => node
  | .error _ => .null

theorem bind_of_error
    {outcome : Outcome α} {failure : Failure}
    (failed : outcome.result = .error failure) (next : α → Outcome β) :
    outcome.bind next = ⟨.error failure, outcome.events, outcome.asked⟩ := by
  simp only [bind, failed]

theorem bind_of_ok
    {outcome : Outcome α} {value : α}
    (succeeded : outcome.result = .ok value) (next : α → Outcome β) :
    outcome.bind next =
      ⟨(next value).result, outcome.events ++ (next value).events,
        outcome.asked ++ (next value).asked⟩ := by
  simp only [bind, succeeded]

@[simp]
theorem pure_bind (value : α) (next : α → Outcome β) :
    (pure value).bind next = next value := by
  rw [bind_of_ok rfl]
  rfl

@[simp]
theorem bind_assoc
    (outcome : Outcome α) (next : α → Outcome β) (last : β → Outcome γ) :
    (outcome.bind next).bind last =
      outcome.bind fun value => (next value).bind last := by
  cases first : outcome.result with
  | error failure =>
      rw [bind_of_error first, bind_of_error first, bind_of_error rfl]
  | ok value =>
      rw [bind_of_ok first, bind_of_ok first]
      cases second : (next value).result with
      | error failure =>
          rw [bind_of_error rfl, bind_of_error second]
      | ok other =>
          rw [bind_of_ok rfl, bind_of_ok second, List.append_assoc,
            List.append_assoc]

theorem map_eq_bind (convert : α → β) (outcome : Outcome α) :
    outcome.map convert = outcome.bind fun value => pure (convert value) := by
  unfold map
  cases first : outcome.result with
  | error failure =>
      rw [bind_of_error first]
      rfl
  | ok value =>
      rw [bind_of_ok first]
      simp only [pure, List.append_nil]
      rfl

end Outcome

/-! ## What a resolution does -/

def Journal.extend (search : String → Option String) (journal : Journal)
    (events : List Event) (asked : List String) : Journal :=
  ⟨journal.cache.locateAll search asked, journal.events ++ events⟩

@[simp]
theorem Journal.answer_extend
    (search : String → Option String) (journal : Journal)
    (events : List Event) (asked : List String) :
    (journal.extend search events asked).cache.answer search =
      journal.cache.answer search :=
  PackageCache.answer_locateAll asked journal.cache

namespace Resolution

variable {α β : Type} {search known : String → Option String}

/-- The resolution has an outcome from every journal whose cache gives the known
answers. -/
def HasOutcome
    (search known : String → Option String)
    (resolution : Resolution α)
    (outcome : Outcome α) :
    Prop :=
  ∀ journal : Journal, journal.cache.answer search = known →
    resolution.run journal =
      (outcome.result, journal.extend search outcome.events outcome.asked)

@[simp]
theorem extend_nothing (journal : Journal) :
    journal.extend search [] [] = journal := by
  unfold Journal.extend
  rw [List.append_nil]
  rfl

@[simp]
theorem extend_extend
    (journal : Journal)
    (events later : List Event)
    (asked further : List String) :
    (journal.extend search events asked).extend search later further =
      journal.extend search (events ++ later) (asked ++ further) := by
  unfold Journal.extend
  rw [List.append_assoc, PackageCache.locateAll_append]

theorem hasOutcome_pure (value : α) :
    HasOutcome search known (pure value) (.pure value) := by
  intro journal _
  exact congrArg (Prod.mk (Except.ok value)) (extend_nothing journal).symm

theorem hasOutcome_fail (cause : Fault) :
    HasOutcome search known (fail cause : Resolution α)
      (.fail (.ofFault cause)) := by
  intro journal _
  exact congrArg (Prod.mk (Except.error (Failure.ofFault cause)))
    (extend_nothing journal).symm

private theorem run_bind_of_error
    {resolution : Resolution α} {journal after : Journal} {failure : Failure}
    (run : resolution.run journal = (.error failure, after))
    (next : α → Resolution β) :
    (resolution >>= next).run journal = (.error failure, after) := by
  rw [ExceptT.run_bind]
  simp only [StateT.bind, bind]
  rw [run]
  rfl

private theorem run_bind_of_ok
    {resolution : Resolution α} {journal after : Journal} {value : α}
    (run : resolution.run journal = (.ok value, after))
    (next : α → Resolution β) :
    (resolution >>= next).run journal = (next value).run after := by
  rw [ExceptT.run_bind]
  simp only [StateT.bind, bind]
  rw [run]

@[simp]
theorem run_under
    (keyPath : KeyPath) (resolution : Resolution α) (journal : Journal) :
    (under keyPath resolution).run journal =
      ((resolution.run journal).1.mapError (·.under keyPath),
        (resolution.run journal).2) := by
  rcases run : resolution.run journal with ⟨result, after⟩
  have runs : resolution journal = (result, after) := run
  simp only [under, tryCatch, tryCatchThe, MonadExceptOf.tryCatch,
    ExceptT.tryCatch, ExceptT.run_mk, bind, StateT.bind]
  rw [runs]
  cases result with
  | error failure => rfl
  | ok value => rfl

theorem hasOutcome_bind
    {resolution : Resolution α} {outcome : Outcome α}
    {next : α → Resolution β} {nextOutcome : α → Outcome β}
    (first : HasOutcome search known resolution outcome)
    (later : ∀ value, outcome.result = .ok value →
      HasOutcome search known (next value) (nextOutcome value)) :
    HasOutcome search known (resolution >>= next)
      (outcome.bind nextOutcome) := by
  intro journal agrees
  have run := first journal agrees
  cases ended : outcome.result with
  | error failure =>
      rw [ended] at run
      rw [Outcome.bind_of_error ended]
      exact run_bind_of_error run next
  | ok value =>
      rw [ended] at run
      have agreesAfter :
          (journal.extend search outcome.events outcome.asked).cache.answer
                search = known :=
        (journal.answer_extend search outcome.events outcome.asked).trans agrees
      rw [Outcome.bind_of_ok ended, run_bind_of_ok run next,
        later value ended _ agreesAfter, extend_extend]

theorem hasOutcome_under
    {resolution : Resolution α} {outcome : Outcome α}
    (keyPath : KeyPath) (does : HasOutcome search known resolution outcome) :
    HasOutcome search known (under keyPath resolution)
      (outcome.under keyPath) := by
  intro journal agrees
  rw [run_under, does journal agrees]
  rfl

theorem hasOutcome_report (event : Event) :
    HasOutcome search known (report event) ⟨.ok (), [event], []⟩ := by
  intro journal _
  rfl

theorem hasOutcome_locate (name : String) :
    HasOutcome search known (locate search name)
      ⟨.ok (known name), [], [name]⟩ := by
  intro journal agrees
  have answered : (journal.cache.locate search name).1 = known name := by
    rw [PackageCache.locate_fst, agrees]
  have run : (locate search name).run journal =
      (.ok (journal.cache.locate search name).1,
        { journal with cache := (journal.cache.locate search name).2 }) := rfl
  rw [run, answered]
  unfold Journal.extend
  rw [List.append_nil]
  rfl

end Resolution

end ConfigTree
