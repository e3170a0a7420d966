import ConfigTree.Proofs.Package.Calls
import ConfigTree.Proofs.Resolver.Visits

/-!
# Searches

What a run does depends on the answers for the names that it asks for and on no
other (`outcome_of_agree`). It calls the search once for each name among the
package references that it comes to that its cache does not hold
(`run_searches_new_names_once`).
-/

namespace ConfigTree.Setting

variable {setting : Setting} {known changed : String → Option String}

/-! ## The names that matter -/

private theorem stringOutcome_of_agree
    {followed other : Path → Outcome Node} {directory : Path} {value : String}
    (agree :
      ∀ name ∈ (stringOutcome known followed directory value).asked,
        changed name = known name)
    (same :
      ∀ path,
        (∀ name ∈ (followed path).asked, changed name = known name) →
          other path = followed path) :
    stringOutcome changed other directory value =
      stringOutcome known followed directory value := by
  unfold stringOutcome at agree ⊢
  rcases classified : Reference.classify value with
    reason | (_ | (text | ⟨name, subpath⟩))
  · rfl
  · rfl
  · rw [classified] at agree
    exact same _ agree
  · rw [classified] at agree
    obtain ⟨here, behind⟩ := List.forall_mem_cons.mp agree
    dsimp only
    rw [here]
    cases answer : known name with
    | none => rfl
    | some root =>
        rw [answer] at behind
        rw [packageOutcome, packageOutcome, same _ behind]

private theorem nodeOutcome_of_agree
    {followed other : Path → Outcome Node} {directory : Path} {tree : Node}
    (agree :
      ∀ name ∈ (tree.outcome (stringOutcome known followed directory) []).asked,
        changed name = known name)
    (same :
      ∀ path,
        (∀ name ∈ (followed path).asked, changed name = known name) →
          other path = followed path) :
    tree.outcome (stringOutcome changed other directory) [] =
      tree.outcome (stringOutcome known followed directory) [] := by
  rw [Node.asked_outcome] at agree
  apply Node.outcome_congr
  intro string member
  apply stringOutcome_of_agree _ same
  intro name asked
  exact agree name (List.mem_flatMap.mpr ⟨string, member, asked⟩)

/-- A search is looked at only where it is asked. -/
theorem followOutcome_of_agree
    (search : String → Option String) {resolving : List Path} {path : Path}
    (agree :
      ∀ name ∈ (setting.followOutcome known resolving path).asked,
        changed name = known name) :
    followOutcome { setting with search := search } changed resolving path =
      setting.followOutcome known resolving path := by
  have sameEntry :
      inspect { setting with search := search } path = setting.inspect path :=
    rfl
  rw [followOutcome_eq, followOutcome_eq, sameEntry]
  rw [followOutcome_eq] at agree
  rcases found : setting.inspect path with fault | ⟨node, _ | _⟩
  · rfl
  · rfl
  · rw [found] at agree
    dsimp only at agree ⊢
    by_cases entered : path ∈ resolving
    · rw [if_pos entered, if_pos entered]
    · rw [if_neg entered] at agree
      rw [if_neg entered, if_neg entered]
      have shorter := Path.room_cons_lt (length_le_of_inspect found) entered
      exact
        nodeOutcome_of_agree agree fun path' => followOutcome_of_agree search
termination_by Path.room FileSystem.pathLimit resolving

theorem outcome_of_agree
    (search : String → Option String)
    {resolving : List Path}
    {directory : Path}
    {tree : Node}
    (agree :
      ∀ name ∈ (setting.outcome known resolving directory tree).asked,
        changed name = known name) :
    outcome { setting with search := search } changed resolving directory tree =
      setting.outcome known resolving directory tree :=
  nodeOutcome_of_agree agree fun _ => followOutcome_of_agree search

open PackageCache (unknown)

/-- During a run the search is called once for each package name among the
references that the run comes to that the cache does not hold, and for no other
name. The cache then holds these names besides the old ones, with the answers of
the search, its counts have grown by as many, and the old answers are what they
were. -/
theorem run_searches_new_names_once
    (setting : Setting)
    (cache : PackageCache)
    (directory : Path)
    (tree : Node) :
    ∃ visits searched,
      setting.Visits cache [] directory
        (setting.comesTo cache [] directory tree) visits ∧
      (∀ failure,
        (setting.run cache directory tree).1 = .error failure →
          visits.getLast?.map Visit.keyPaths = some failure.keyPaths) ∧
      let asked := visits.filterMap Visit.package?
      let after := (setting.run cache directory tree).2.cache
      searched.Nodup ∧
      (∀ name, name ∈ searched ↔ name ∈ asked ∧ name ∉ cache.names) ∧
      (cache.askInTurn setting.search asked).run [] = (after, searched) ∧
      (∀ other : String → Option String,
        (∀ name ∈ searched, other name = setting.search name) →
          run { setting with search := other } cache directory tree =
            setting.run cache directory tree) ∧
      (∀ name, name ∈ after.names ↔ name ∈ cache.names ∨ name ∈ searched) ∧
      after.size = cache.size + searched.length ∧
      after.searches = cache.searches + searched.length ∧
      (∀ name ∈ cache.names,
        after.answers.lookup name = cache.answers.lookup name) ∧
      ∀ name ∈ searched,
        after.answers.lookup name = some (setting.search name) := by
  obtain ⟨visits, visited⟩ := exists_visits setting cache [] directory tree
  have names := asked_outcome visited
  have ran : setting.run cache directory tree = _ :=
    run_resolveIn setting [] directory tree (.start cache)
  have after : (setting.run cache directory tree).2.cache =
      cache.locateAll setting.search (visits.filterMap Visit.package?) := by
    rw [ran, ← names]
    rfl
  refine ⟨visits, unknown cache.names (visits.filterMap Visit.package?),
    visited, ?_, ?_⟩
  · intro failure failed
    exact getLast?_visits (failsAt_of_result failed) visited
  · dsimp only
    rw [after]
    refine ⟨PackageCache.nodup_unknown,
      fun name => PackageCache.mem_unknown_iff, ?_, ?_, ?_,
      PackageCache.size_locateAll _ cache,
      PackageCache.searches_locateAll _ cache,
      fun name known => PackageCache.lookup_locateAll_of_known known _,
      fun name fresh => PackageCache.lookup_locateAll_of_unknown fresh⟩
    · rw [PackageCache.run_askInTurn, List.nil_append]
    · intro other agree
      have sameOutcome :
          outcome { setting with search := other } (cache.answer other) []
              directory tree =
            setting.outcome (cache.answer setting.search) [] directory
              tree := by
        apply outcome_of_agree
        rw [names]
        exact PackageCache.answer_congr agree
      have ranOther :
          run { setting with search := other } cache directory tree = _ :=
        run_resolveIn { setting with search := other } [] directory tree
          (.start cache)
      have sameCache :
          (Journal.start cache).cache.answer other = cache.answer other :=
        rfl
      have sameAfter := PackageCache.locateAll_congr agree
      rw [ranOther, ran, sameCache, sameOutcome]
      dsimp only [Journal.extend, Journal.start]
      rw [names, sameAfter]
    · intro name
      rw [PackageCache.names_locateAll, List.mem_append, List.mem_reverse,
        or_comm]

end ConfigTree.Setting
