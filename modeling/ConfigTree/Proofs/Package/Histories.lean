import ConfigTree.Proofs.Package.Calls
import Mathlib.Algebra.GroupWithZero.Nat
import Mathlib.Algebra.Order.BigOperators.Group.List
import Mathlib.Data.Finset.Card
import Mathlib.Data.List.DropRight

/-!
# Histories of a cache

A cache is asked for names and made to forget in any order, and packages come
and go meanwhile, so each question has a search of its own behind it. What the
cache answers and counts is told by its history: within a period, which ends
when the answers are forgotten, the first answer to a name stays
(`history_tells_cache`).
-/

namespace ConfigTree.PackageCache

/-- What is done with a cache. A name is asked for with the search as it answers
at that time. -/
inductive Operation where
  | locate (search : String → Option String) (name : String)
  | reset

namespace Operation

def perform (cache : PackageCache) : Operation → PackageCache
  | .locate search name => (cache.locate search name).2
  | .reset => cache.reset

def isReset : Operation → Bool
  | .locate _ _ => false
  | .reset => true

/-- The name that is asked for. -/
def name? : Operation → Option String
  | .locate _ name => some name
  | .reset => none

/-- What the search answers to the name at that time, if this is the name that
is asked for. -/
def answer? (name : String) : Operation → Option (Option String)
  | .locate search asked => if asked = name then some (search name) else none
  | .reset => none

end Operation

/-- A new cache after what is done with it. -/
def after (history : List Operation) : PackageCache :=
  history.foldl Operation.perform .empty

/-- What is done between one time of forgetting and the next. -/
def periods (history : List Operation) : List (List Operation) :=
  history.splitOnP Operation.isReset

/-- What is done after the last time of forgetting. -/
def sinceReset (history : List Operation) : List Operation :=
  history.rtakeWhile fun operation => !operation.isReset

/-- What the search answers when a name is asked for first. -/
def firstAnswer?
    (period : List Operation) (name : String) :
    Option (Option String) :=
  period.findSome? (Operation.answer? name)

/-- How many different names are asked for. -/
def distinctNames (period : List Operation) : Nat :=
  (period.filterMap Operation.name?).toFinset.card

variable {search : String → Option String} {history period : List Operation}
  {name : String}

/-! ## One operation -/

private theorem after_concat
    (operation : Operation) :
    after (history ++ [operation]) = operation.perform (after history) := by
  unfold after
  rw [List.foldl_append]
  rfl

@[simp]
theorem after_locate :
    after (history ++ [.locate search name]) =
      ((after history).locate search name).2 :=
  after_concat _

@[simp]
theorem after_reset : after (history ++ [.reset]) = (after history).reset :=
  after_concat _

@[simp]
theorem sinceReset_reset : sinceReset (history ++ [.reset]) = [] :=
  List.rtakeWhile_concat_neg _ history _ Bool.false_ne_true

@[simp]
theorem sinceReset_locate :
    sinceReset (history ++ [.locate search name]) =
      sinceReset history ++ [.locate search name] :=
  List.rtakeWhile_concat_pos _ history _ rfl

@[simp]
theorem firstAnswer?_locate (other : String) :
    firstAnswer? (period ++ [.locate search name]) other =
      (firstAnswer? period other).or
        (if name = other then some (search other) else none) := by
  unfold firstAnswer?
  rw [List.findSome?_append, List.findSome?_singleton]
  rfl

private theorem firstAnswer?_eq_none_iff :
    firstAnswer? period name = none ↔
      name ∉ period.filterMap Operation.name? := by
  induction period with
  | nil => simp [firstAnswer?]
  | cons operation rest inductionHypothesis =>
      unfold firstAnswer? at inductionHypothesis ⊢
      cases operation with
      | reset =>
          simpa [Operation.answer?, Operation.name?] using inductionHypothesis
      | locate search asked =>
          by_cases same : asked = name
          · simp [Operation.answer?, Operation.name?, same]
          · simpa [Operation.answer?, Operation.name?, same, Ne.symm same] using
              inductionHypothesis

@[simp]
theorem distinctNames_locate :
    distinctNames (period ++ [.locate search name]) =
      distinctNames period + if name ∈
        period.filterMap Operation.name? then 0 else 1 := by
  have names :
      (period ++ [Operation.locate search name]).filterMap Operation.name? =
        period.filterMap Operation.name? ++ [name] := by
    rw [List.filterMap_append]
    rfl
  have set : (period.filterMap Operation.name? ++ [name]).toFinset =
      insert name (period.filterMap Operation.name?).toFinset := by
    rw [List.toFinset_append, Finset.union_comm]
    rfl
  unfold distinctNames
  rw [names, set]
  by_cases known : name ∈ period.filterMap Operation.name?
  · rw [if_pos known, Finset.insert_eq_of_mem (List.mem_toFinset.mpr known)]
    rfl
  · rw [if_neg known,
      Finset.card_insert_of_notMem fun member =>
        known (List.mem_toFinset.mp member)]

/-! ## The answers of a period -/

/-- A cache holds the first answers since it last forgot. -/
theorem lookup_after (history : List Operation) (name : String) :
    (after history).answers.lookup name =
      firstAnswer? (sinceReset history) name := by
  induction history using List.reverseRecOn with
  | nil => rfl
  | append_singleton history operation inductionHypothesis =>
      cases operation with
      | reset =>
          rw [after_reset, sinceReset_reset]
          rfl
      | locate search asked =>
          rw [after_locate, sinceReset_locate, firstAnswer?_locate,
            ← inductionHypothesis]
          by_cases known : asked ∈ (after history).names
          · rw [locate_of_known known]
            by_cases same : asked = name
            · subst same
              rw [lookup_of_known search known]
              rfl
            · rw [if_neg same, Option.or_none]
          · rw [locate_of_unknown known]
            by_cases same : asked = name
            · subst same
              rw [List.lookup_cons_self, lookup_eq_none_iff.mpr known,
                if_pos rfl]
              rfl
            · have different : (name == asked) = false :=
                beq_eq_false_iff_ne.mpr (Ne.symm same)
              rw [List.lookup_cons, different, if_neg same, Option.or_none]

private theorem mem_names_after_iff :
    name ∈ (after history).names ↔
      name ∈ (sinceReset history).filterMap Operation.name? := by
  rw [← not_iff_not, ← lookup_eq_none_iff, lookup_after,
    firstAnswer?_eq_none_iff]

private theorem nodup_names_after
    (history : List Operation) :
    (after history).names.Nodup := by
  induction history using List.reverseRecOn with
  | nil => exact List.nodup_nil
  | append_singleton history operation inductionHypothesis =>
      cases operation with
      | reset =>
          rw [after_reset]
          exact List.nodup_nil
      | locate search asked =>
          rw [after_locate]
          by_cases known : asked ∈ (after history).names
          · rw [locate_of_known known]
            exact inductionHypothesis
          · rw [locate_of_unknown known]
            exact List.nodup_cons.mpr ⟨known, inductionHypothesis⟩

private theorem size_after
    (history : List Operation) :
    (after history).size = distinctNames (sinceReset history) := by
  have sameNames :
      (after history).names.toFinset =
        ((sinceReset history).filterMap Operation.name?).toFinset := by
    ext name
    rw [List.mem_toFinset, List.mem_toFinset, mem_names_after_iff]
  rw [distinctNames, ← sameNames,
    List.toFinset_card_of_nodup (nodup_names_after history), names,
    List.length_map, size]

/-! ## The count over all periods -/

/-- The last period goes on as long as nothing is forgotten; the earlier ones
are over. -/
theorem exists_earlier_periods (history : List Operation) :
    ∃ earlier,
      ∀ later : List Operation,
        (∀ operation ∈ later, operation.isReset = false) →
          periods (history ++ later) =
            earlier ++ [sinceReset history ++ later] := by
  unfold periods
  induction history using List.reverseRecOn with
  | nil =>
      refine ⟨[], ?_⟩
      intro later noReset
      exact List.splitOnP_eq_singleton noReset
  | append_singleton history operation inductionHypothesis =>
      cases operation with
      | reset =>
          refine ⟨history.splitOnP Operation.isReset, ?_⟩
          intro later noReset
          rw [sinceReset_reset, List.append_assoc, List.singleton_append,
            List.splitOnP_append_cons _ _ rfl,
            List.splitOnP_eq_singleton noReset]
          rfl
      | locate search name =>
          obtain ⟨earlier, whole⟩ := inductionHypothesis
          refine ⟨earlier, ?_⟩
          intro later noReset
          have longer :=
            whole (.locate search name :: later)
              (List.forall_mem_cons.mpr ⟨rfl, noReset⟩)
          simpa using longer

@[simp]
theorem periods_reset :
    periods (history ++ [.reset]) = periods history ++ [[]] := by
  unfold periods
  rw [List.splitOnP_append_cons _ _ rfl, List.splitOnP_nil]

private theorem searches_after (history : List Operation) :
    (after history).searches = ((periods history).map distinctNames).sum := by
  induction history using List.reverseRecOn with
  | nil => rfl
  | append_singleton history operation inductionHypothesis =>
      cases operation with
      | reset =>
          simp [← inductionHypothesis, reset, distinctNames]
      | locate search name =>
          obtain ⟨earlier, whole⟩ := exists_earlier_periods history
          have before : periods history = earlier ++ [sinceReset history] := by
            simpa using whole [] (by simp)
          have now := whole [.locate search name] (by simp [Operation.isReset])
          rw [before, List.map_append, List.sum_append, List.map_singleton,
            List.sum_singleton] at inductionHypothesis
          rw [after_locate, now, List.map_append, List.sum_append,
            List.map_singleton, List.sum_singleton, distinctNames_locate]
          by_cases known : name ∈ (after history).names
          · rw [locate_of_known known, if_pos (mem_names_after_iff.mp known)]
            exact inductionHypothesis
          · rw [locate_of_unknown known,
              if_neg fun asked => known (mem_names_after_iff.mpr asked)]
            dsimp only
            omega

private theorem searches_le_locate
    (cache : PackageCache) (search : String → Option String) (name : String) :
    cache.searches ≤ (cache.locate search name).2.searches := by
  by_cases known : name ∈ cache.names
  · rw [locate_of_known known]
  · rw [locate_of_unknown known]
    exact Nat.le_succ _

private theorem searches_le_after_append (history later : List Operation) :
    (after history).searches ≤ (after (history ++ later)).searches := by
  induction later using List.reverseRecOn with
  | nil => rw [List.append_nil]
  | append_singleton later operation inductionHypothesis =>
      rw [← List.append_assoc]
      cases operation with
      | reset =>
          rw [after_reset]
          exact inductionHypothesis
      | locate search name =>
          rw [after_locate]
          exact inductionHypothesis.trans (searches_le_locate _ search name)

private theorem size_le_searches_after
    (history : List Operation) :
    (after history).size ≤ (after history).searches := by
  obtain ⟨earlier, whole⟩ := exists_earlier_periods history
  have last : periods history = earlier ++ [sinceReset history] := by
    simpa using whole [] (by simp)
  rw [size_after, searches_after, last, List.map_append, List.sum_append]
  exact Nat.le_add_left _ _

/-- A name that is asked for gets the first answer since the cache last
forgot. -/
theorem locate_after
    (history : List Operation)
    (search : String → Option String)
    (name : String) :
    firstAnswer? (sinceReset (history ++ [.locate search name])) name =
      some ((after history).locate search name).1 := by
  rw [sinceReset_locate, firstAnswer?_locate, if_pos rfl, ← lookup_after,
    locate_fst, answer]
  cases (after history).answers.lookup name with
  | none => rfl
  | some first => rfl

/-- Whatever is done with a cache, and however the search behind it changes:
asking for a name gives what the search answered when the name was first asked
for in the present period, found or not; the cache knows as many names as were
asked for in the period; it has counted one search for each name of each period,
a count that never goes down, not by forgetting either, and is never below the
number of known names; and asking for one name changes the answer for no
other. -/
theorem history_tells_cache (history : List Operation) :
    (∀ search name,
      firstAnswer? (sinceReset (history ++ [.locate search name])) name =
        some ((after history).locate search name).1) ∧
    (after history).size = distinctNames (sinceReset history) ∧
    (after history).searches = ((periods history).map distinctNames).sum ∧
    (∀ later, (after history).searches ≤ (after (history ++ later)).searches) ∧
    (after (history ++ [.reset])).searches = (after history).searches ∧
    (after history).size ≤ (after history).searches ∧
    ∀ search name later other, other ≠ name →
      ((after (history ++ [.locate search name])).locate later other).1 =
        ((after history).locate later other).1 := by
  refine ⟨locate_after history, size_after history, searches_after history,
    searches_le_after_append history, ?_, size_le_searches_after history, ?_⟩
  · rw [after_reset]
    rfl
  · intro search name later other different
    have same :
        firstAnswer?
            (sinceReset
              (history ++ [.locate search name] ++ [.locate later other]))
            other =
          firstAnswer? (sinceReset (history ++ [.locate later other]))
            other := by
      simp only [sinceReset_locate, firstAnswer?_locate,
        if_neg (Ne.symm different), Option.or_none]
    rw [locate_after, locate_after] at same
    exact Option.some.inj same

/-- A package that is installed between two questions is found only once the
cache has forgotten that it was missing. -/
theorem history_tells_cache_installed :
    let missing : String → Option String := fun _ => none
    let installed : String → Option String := fun _ => some "/p"
    let period := [.locate missing "p", .locate installed "p"]
    let history := period ++ [.reset, .locate installed "p"]
    ((after period).locate installed "p").1 = none ∧
      ((after history).locate missing "p").1 = some "/p" ∧
      (after history).size = 1 ∧ (after history).searches = 2 ∧
      ((after (history ++ [.locate installed "q"])).locate missing "p").1 =
        some "/p" := by
  intro missing installed period history
  obtain ⟨firstOfPeriod, _⟩ := history_tells_cache period
  obtain ⟨first, known, counted, _, _, _, others⟩ := history_tells_cache history
  have stillMissing : ((after period).locate installed "p").1 = none :=
    (Option.some.inj (firstOfPeriod installed "p")).symm
  have nowFound : ((after history).locate missing "p").1 = some "/p" :=
    (Option.some.inj (first missing "p")).symm
  have unchanged := others installed "q" missing "p" (by decide)
  exact ⟨stillMissing, nowFound, known, counted, unchanged.trans nowFound⟩

end ConfigTree.PackageCache
