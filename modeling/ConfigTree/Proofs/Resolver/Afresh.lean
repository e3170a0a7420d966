import ConfigTree.Proofs.Package.Calls
import ConfigTree.Proofs.Resolver.Reordering

/-!
# Resolving without a cache

A resolution that calls the search at every package reference, whatever a cache
holds. Main statement: with a cache that agrees with the search, as every cache
does that was used with that search only, a run gives what it gives without one
(`run_of_agrees`).
-/

namespace ConfigTree

/-! ## Caches that agree with a search -/

namespace PackageCache

/-- Every remembered answer is the one that the search gives. -/
def Agrees (search : String → Option String) (cache : PackageCache) : Prop :=
  ∀ entry ∈ cache.answers, entry.2 = search entry.1

variable {search : String → Option String} {cache : PackageCache}

private theorem agrees_empty
    (search : String → Option String) :
    empty.Agrees search :=
  fun _ member => absurd member List.not_mem_nil

private theorem agrees_reset
    (search : String → Option String) (cache : PackageCache) :
    cache.reset.Agrees search :=
  fun _ member => absurd member List.not_mem_nil

/-- With a cache that agrees, each name gets the answer of the search. -/
theorem answer_of_agrees
    (agrees : cache.Agrees search) :
    cache.answer search = search := by
  funext name
  unfold answer
  cases found : cache.answers.lookup name with
  | none => rfl
  | some known =>
      obtain ⟨before, after, split, _⟩ := List.lookup_eq_some_iff.mp found
      exact agrees (name, known) (by rw [split]; simp)

/-- Asking the search behind a cache keeps the agreement. -/
theorem agrees_locateAll (agrees : cache.Agrees search) (asked : List String) :
    (cache.locateAll search asked).Agrees search := by
  intro entry member
  rw [answers_locateAll] at member
  rcases List.mem_append.mp member with new | old
  · obtain ⟨name, _, rfl⟩ := List.mem_map.mp new
    rfl
  · exact agrees entry old

end PackageCache

/-! ## Outcomes that ask for nothing -/

namespace Outcome

variable {α : Type}

/-- The outcome without the names that are asked for. -/
def unasked (outcome : Outcome α) : Outcome α :=
  { outcome with asked := [] }

private theorem unasked_bind
    {β : Type} (outcome : Outcome α) (next : α → Outcome β) :
    (outcome.unasked.bind fun value => (next value).unasked) =
      (outcome.bind next).unasked := by
  cases ended : outcome.result with
  | error failure =>
      have unaskedEnded : outcome.unasked.result = .error failure := ended
      rw [bind_of_error unaskedEnded, bind_of_error ended]
      rfl
  | ok value =>
      have unaskedEnded : outcome.unasked.result = .ok value := ended
      rw [bind_of_ok unaskedEnded, bind_of_ok ended]
      rfl

private theorem through_unasked
    (handle : String → Outcome Node) (strings : List (KeyPath × String)) :
    through (fun value => (handle value).unasked) strings =
      (through handle strings).unasked := by
  induction strings with
  | nil => rfl
  | cons first rest inductionHypothesis =>
      obtain ⟨keyPath, value⟩ := first
      rw [through, through, ← unasked_bind, inductionHypothesis]
      rfl

end Outcome

private theorem Node.outcome_unasked
    (handle : String → Outcome Node) (keyPath : KeyPath) (tree : Node) :
    tree.outcome (fun value => (handle value).unasked) keyPath =
      (tree.outcome handle keyPath).unasked := by
  unfold outcome
  rw [Outcome.through_unasked]
  rfl

/-! ## Searching afresh -/

namespace Setting

/-- What a string of a tree stands for when each package reference calls the
search. -/
def resolveStringAfresh
    (setting : Setting)
    (follow : Path → Resolution Node)
    (directory : Path)
    (value : String) :
    Resolution Node :=
  match Reference.classify value with
  | .error reason => Resolution.fail (.malformedReference value reason)
  | .ok none => return .string value
  | .ok (some (.relative text)) => follow (directory.join text)
  | .ok (some (.package name subpath)) =>
    match setting.search name with
    | none => do
      Resolution.report (.notFound name)
      return .missingPackage name
    | some root => do
      let path := (Path.ofText root).join subpath
      Resolution.report (.connected name path)
      follow path

/-- What the entry at a path stands for when each package reference calls the
search. -/
def followAfresh
    (setting : Setting) (resolving : List Path) (path : Path) :
    Resolution Node :=
  match found : setting.inspect path with
  | .error fault => Resolution.fail fault
  | .ok (node, false) => return node
  | .ok (node, true) =>
    if entered : path ∈ resolving then Resolution.fail (.referenceCycle path)
    else
      have := Path.room_cons_lt (length_le_of_inspect found) entered
      let inside :=
        setting.resolveStringAfresh
          (fun path' => setting.followAfresh (path :: resolving) path')
          (homeOf path)
      node.resolveWith inside []
termination_by Path.room FileSystem.pathLimit resolving
decreasing_by exact this

/-- The run that resolves a tree without a cache: what it results in and what it
reports. -/
def runAfresh
    (setting : Setting) (directory : Path) (tree : Node) :
    Except Failure Node × List Event :=
  let ran :=
    (tree.resolveWith
      (setting.resolveStringAfresh (setting.followAfresh []) directory) []).run
      (.start .empty)
  (ran.1, ran.2.events)

variable {setting : Setting} {known : String → Option String}

private theorem followAfresh_eq
    (setting : Setting) (resolving : List Path) (path : Path) :
    setting.followAfresh resolving path =
      match setting.inspect path with
      | .error fault => Resolution.fail fault
      | .ok (node, false) => return node
      | .ok (node, true) =>
        if path ∈ resolving then Resolution.fail (.referenceCycle path)
        else
          node.resolveWith
              (setting.resolveStringAfresh
                (setting.followAfresh (path :: resolving)) (homeOf path))
              [] := by
  rw [followAfresh]
  split
  · rename_i failed
    simp only [failed]
  · rename_i found
    simp only [found]
  · rename_i found
    simp only [found]
    rfl

section Runs

open Resolution (HasOutcome)

private theorem hasOutcome_resolveStringAfresh
    {follow : Path → Resolution Node} {followed : Path → Outcome Node}
    (does :
      ∀ path,
        HasOutcome setting.search known (follow path) (followed path).unasked)
    (directory : Path) (value : String) :
    HasOutcome setting.search known
      (setting.resolveStringAfresh follow directory value)
      (stringOutcome setting.search followed directory value).unasked := by
  unfold resolveStringAfresh stringOutcome
  cases Reference.classify value with
  | error reason => exact Resolution.hasOutcome_fail _
  | ok reference =>
      rcases reference with _ | (text | ⟨name, subpath⟩)
      · exact Resolution.hasOutcome_pure _
      · exact does _
      · dsimp only
        cases setting.search name with
        | none =>
            exact Resolution.hasOutcome_bind
              (Resolution.hasOutcome_report (.notFound name)) fun _ _ =>
              Resolution.hasOutcome_pure (Node.missingPackage name)
        | some root =>
            exact Resolution.hasOutcome_bind
              (Resolution.hasOutcome_report
                (.connected name ((Path.ofText root).join subpath)))
              fun _ _ => does ((Path.ofText root).join subpath)

private theorem hasOutcome_followAfresh (resolving : List Path) (path : Path) :
    HasOutcome setting.search known (setting.followAfresh resolving path)
      (setting.followOutcome setting.search resolving path).unasked := by
  rw [followAfresh_eq, followOutcome_eq]
  rcases found : setting.inspect path with fault | ⟨node, _ | _⟩
  · exact Resolution.hasOutcome_fail _
  · exact Resolution.hasOutcome_pure _
  · dsimp only
    by_cases entered : path ∈ resolving
    · rw [if_pos entered, if_pos entered]
      exact Resolution.hasOutcome_fail _
    · rw [if_neg entered, if_neg entered, ← Node.outcome_unasked]
      have shorter := Path.room_cons_lt (length_le_of_inspect found) entered
      have does :=
        fun path' => hasOutcome_followAfresh (path :: resolving) path'
      exact Node.hasOutcome_resolveWith
        (hasOutcome_resolveStringAfresh does (homeOf path)) [] node
termination_by Path.room FileSystem.pathLimit resolving

end Runs

private theorem runAfresh_eq
    (setting : Setting) (directory : Path) (tree : Node) :
    setting.runAfresh directory tree =
      ((setting.outcome setting.search [] directory tree).result,
        (setting.outcome setting.search [] directory tree).events) := by
  have does :
      ∀ path,
        Resolution.HasOutcome setting.search setting.search
          (setting.followAfresh [] path)
          (setting.followOutcome setting.search [] path).unasked :=
    fun path => hasOutcome_followAfresh [] path
  have ran :=
    Node.hasOutcome_resolveWith (hasOutcome_resolveStringAfresh does directory)
      [] tree (.start .empty) rfl
  unfold runAfresh
  rw [ran, Node.outcome_unasked]
  rfl

/-! ## Runs with a cache -/

private theorem run_eq_runAfresh
    {cache : PackageCache}
    (agrees : cache.Agrees setting.search)
    (directory : Path)
    (tree : Node) :
    (setting.run cache directory tree).1 =
      (setting.runAfresh directory tree).1 ∧
      (setting.run cache directory tree).2.events =
        (setting.runAfresh directory tree).2 := by
  have ran : setting.run cache directory tree = _ :=
    run_resolveIn setting [] directory tree (.start cache)
  have same :
      (Journal.start cache).cache.answer setting.search = setting.search :=
    PackageCache.answer_of_agrees agrees
  rw [ran, runAfresh_eq, same]
  exact ⟨rfl, rfl⟩

/-- A run, whether it comes out or fails, leaves a cache that agrees if it was
given one. -/
theorem agrees_run
    {cache : PackageCache}
    (agrees : cache.Agrees setting.search)
    (directory : Path)
    (tree : Node) :
    (setting.run cache directory tree).2.cache.Agrees setting.search := by
  have ran : setting.run cache directory tree = _ :=
    run_resolveIn setting [] directory tree (.start cache)
  rw [ran]
  exact PackageCache.agrees_locateAll agrees _

end Setting

/-- The caches that come of a new one by using it with one search: in runs over
any trees, from any directories and with any options, whether these come out or
fail, by asking for names, and by forgetting the answers. -/
inductive PackageCache.Used
    (search : String → Option String) :
    PackageCache → Prop where
  | new : Used search .empty
  | run
      {cache : PackageCache}
      (setting : Setting)
      (same : setting.search = search)
      (directory : Path)
      (tree : Node)
      (before : Used search cache) :
      Used search (setting.run cache directory tree).2.cache
  | locate {cache : PackageCache} (name : String) (before : Used search cache) :
      Used search (cache.locate search name).2
  | reset
      {cache : PackageCache} (before : Used search cache) :
      Used search cache.reset

private theorem PackageCache.agrees_of_used
    {search : String → Option String}
    {cache : PackageCache}
    (used : Used search cache) :
    cache.Agrees search := by
  induction used with
  | new => exact agrees_empty search
  | run setting same directory tree _ inductionHypothesis =>
      subst same
      exact Setting.agrees_run inductionHypothesis directory tree
  | locate name _ inductionHypothesis =>
      exact agrees_locateAll inductionHypothesis [name]
  | reset _ _ => exact agrees_reset search _

/-- A resolver's run with a cache that agrees with the source of packages is its
run with a cache of its own. -/
theorem Resolver.resolveWithCache_of_agrees
    {files : FileSystem}
    {resolver : Resolver}
    {source : PackageSource}
    {cache : PackageCache}
    (own : resolver.source files = .ok source)
    (agrees : cache.Agrees (source.search files))
    (tree : Node) :
    ∃ base, resolver.absoluteBase files = .ok base ∧
      let afresh :=
        Setting.runAfresh
          ⟨files, source.search files, resolver.options.resolveNested⟩ base tree
      (resolver.resolveWithCache files source cache tree).1 = afresh.1 ∧
      (resolver.resolveWithCache files source cache tree).2.events = afresh.2 ∧
      (resolver.resolve files tree).1 = afresh.1 ∧
      (resolver.resolve files tree).2.events = afresh.2 := by
  obtain ⟨base, absolute, cached⟩ :=
    Setting.exists_run_of_resolveWithCache resolver files source cache tree
  obtain ⟨otherBase, again, fresh⟩ :=
    Setting.exists_run_of_resolveWithCache resolver files source .empty tree
  cases absolute.symm.trans again
  have resolved :
      resolver.resolve files tree =
        resolver.resolveWithCache files source .empty tree := by
    rw [resolve, own]
  refine ⟨base, absolute, ?_⟩
  dsimp only
  rw [resolved, cached, fresh]
  let setting : Setting :=
    ⟨files, source.search files, resolver.options.resolveNested⟩
  have agreesHere : cache.Agrees setting.search := agrees
  have emptyAgrees : PackageCache.empty.Agrees setting.search :=
    PackageCache.agrees_empty _
  obtain ⟨cachedResult, cachedEvents⟩ :=
    Setting.run_eq_runAfresh agreesHere base tree
  obtain ⟨ownResult, ownEvents⟩ :=
    Setting.run_eq_runAfresh emptyAgrees base tree
  exact ⟨cachedResult, cachedEvents, ownResult, ownEvents⟩

/-- A cache does not show. Every cache that was used with one search only agrees
with it. With any two caches that agree with the search, a run gives the same
result or the same failure and reports the same events in the same order, namely
what comes of calling the search afresh at each package reference, and it leaves
the caches in agreement. So a resolver gives with such a cache what it gives
with one of its own. -/
theorem run_of_agrees (setting : Setting) (directory : Path) (tree : Node) :
    (∀ cache,
      PackageCache.Used setting.search cache → cache.Agrees setting.search) ∧
    (∀ cache other : PackageCache,
      cache.Agrees setting.search → other.Agrees setting.search →
        (setting.run cache directory tree).1 =
          (setting.run other directory tree).1 ∧
          (setting.run cache directory tree).2.events =
            (setting.run other directory tree).2.events ∧
          (setting.run cache directory tree).1 =
            (setting.runAfresh directory tree).1 ∧
          (setting.run cache directory tree).2.events =
            (setting.runAfresh directory tree).2 ∧
          (setting.run cache directory tree).2.cache.Agrees setting.search) ∧
    ∀ files resolver source, Resolver.source files resolver = .ok source →
      ∀ cache : PackageCache, cache.Agrees (source.search files) →
        (resolver.resolveWithCache files source cache tree).1 =
          (resolver.resolve files tree).1 ∧
        (resolver.resolveWithCache files source cache tree).2.events =
          (resolver.resolve files tree).2.events := by
  refine ⟨fun cache used => PackageCache.agrees_of_used used, ?_, ?_⟩
  · intro cache other agrees agreesOther
    obtain ⟨sameResult, sameEvents⟩ :=
      Setting.run_eq_runAfresh agrees directory tree
    obtain ⟨otherResult, otherEvents⟩ :=
      Setting.run_eq_runAfresh agreesOther directory tree
    exact ⟨sameResult.trans otherResult.symm, sameEvents.trans otherEvents.symm,
      sameResult, sameEvents, Setting.agrees_run agrees directory tree⟩
  · intro files resolver source own cache agrees
    obtain ⟨base, _, cachedResult, cachedEvents, ownResult, ownEvents⟩ :=
      Resolver.resolveWithCache_of_agrees own agrees tree
    exact ⟨cachedResult.trans ownResult.symm, cachedEvents.trans ownEvents.symm⟩

/-- A cache that knows one package and one miss, and a new one. -/
theorem run_of_agrees_warmed :
    let setting : Setting :=
      ⟨⟨[], []⟩, fun name => if name = "p" then some "/p" else none, true⟩
    let warmed : PackageCache := ⟨[("q", none), ("p", some "/p")], 2⟩
    let tree :=
      Node.mapping [("a", .string "[module] q"), ("b", .string "[module] p")]
    warmed.Agrees setting.search ∧ PackageCache.empty.Agrees setting.search ∧
      (setting.run warmed (Path.ofText "/d") tree).1 =
        (setting.run .empty (Path.ofText "/d") tree).1 ∧
      (setting.run warmed (Path.ofText "/d") tree).2.events =
        (setting.run .empty (Path.ofText "/d") tree).2.events := by
  intro setting warmed tree
  have agrees : warmed.Agrees setting.search := by
    intro entry member
    simp only [warmed, List.mem_cons, List.not_mem_nil, or_false] at member
    rcases member with rfl | rfl
    · rfl
    · rfl
  have emptyAgrees : PackageCache.empty.Agrees setting.search :=
    PackageCache.agrees_empty _
  obtain ⟨sameResult, sameEvents, _⟩ :=
    (run_of_agrees setting (Path.ofText "/d") tree).2.1 warmed .empty agrees
      emptyAgrees
  exact ⟨agrees, emptyAgrees, sameResult, sameEvents⟩

end ConfigTree
