import ConfigTree.Proofs.Resolver.Cycles
import ConfigTree.Proofs.Resolver.Reached
import Mathlib.Data.List.Basic

/-!
# Visits

The strings that a run comes to, in the order of the document, those of a file
right behind the string that opens it. There is exactly one such list for a tree
(`exists_visits`, `visits_unique`). It gives the events that are reported
(`events_outcome`), the names that are asked for (`asked_outcome`), and the
place of a failure (`getLast?_visits`).
-/

namespace ConfigTree

/-- A string that a run comes to: its text and the key paths that lead to it
through the files on the way. -/
structure Visit where
  keyPaths : List KeyPath
  value : String

namespace Visit

def under (keyPath : KeyPath) (visit : Visit) : Visit :=
  { visit with keyPaths := keyPath :: visit.keyPaths }

/-- The package that the string refers to, if it is a package reference. -/
def package? (visit : Visit) : Option String :=
  match Reference.classify visit.value with
  | .ok (some (.package name _)) => some name
  | _ => none

/-- What there is to report about the string when the names have the known
answers. -/
def event? (known : String → Option String) (visit : Visit) : Option Event :=
  match Reference.classify visit.value with
  | .ok (some (.package name subpath)) =>
    match known name with
    | some root => some (.connected name ((Path.ofText root).join subpath))
    | none => some (.notFound name)
  | _ => none

end Visit

namespace Setting

/-- The strings of a tree that going through it comes to: all up to the first
that fails by itself, and that one. -/
def comesTo
    (setting : Setting)
    (cache : PackageCache)
    (resolving : List Path)
    (directory : Path)
    (tree : Node) :
    List (KeyPath × String) :=
  upTo
    (fun string =>
      (setting.result cache resolving directory (.string string.2)).isOk)
    (tree.strings [])

/-- The visits that strings lead to when they are all come to. Behind the visit
of a string that opens a file which is not being resolved stand the visits that
the file's own strings lead to. -/
inductive Visits (setting : Setting) (cache : PackageCache) :
    List Path → Path → List (KeyPath × String) → List Visit → Prop where
  | none
      {resolving : List Path} {directory : Path} :
      Visits setting cache resolving directory [] []
  | single
      {resolving : List Path}
      {directory : Path}
      {keyPath : KeyPath}
      {value : String}
      {rest : List (KeyPath × String)}
      {visits : List Visit}
      (closed :
        ∀ path content,
          setting.Opens cache directory value path content → path ∈ resolving)
      (later : Visits setting cache resolving directory rest visits) :
      Visits setting cache resolving directory ((keyPath, value) :: rest)
        (⟨[keyPath], value⟩ :: visits)
  | opening
      {resolving : List Path}
      {directory path : Path}
      {content : Node}
      {keyPath : KeyPath}
      {value : String}
      {rest : List (KeyPath × String)}
      {inner visits : List Visit}
      (opens : setting.Opens cache directory value path content)
      (fresh : path ∉ resolving)
      (within :
        Visits setting cache (path :: resolving) (homeOf path)
          (setting.comesTo cache (path :: resolving) (homeOf path) content)
          inner)
      (later : Visits setting cache resolving directory rest visits) :
      Visits setting cache resolving directory ((keyPath, value) :: rest)
        (⟨[keyPath], value⟩ :: inner.map (·.under keyPath) ++ visits)

variable {setting : Setting} {cache : PackageCache} {resolving : List Path}
  {directory : Path}

/-! ## One list of visits -/

private theorem opens_unique
    {value : String} {path other : Path} {content otherContent : Node}
    (opens : setting.Opens cache directory value path content)
    (opensOther : setting.Opens cache directory value other otherContent) :
    path = other ∧ content = otherContent := by
  have samePath : path = other :=
    Option.some.inj (opens.leads.symm.trans opensOther.leads)
  subst samePath
  have sameRead := opens.read.symm.trans opensOther.read
  simp only [Except.ok.injEq, Prod.mk.injEq, and_true] at sameRead
  exact ⟨rfl, sameRead⟩

theorem exists_visits
    (setting : Setting)
    (cache : PackageCache)
    (resolving : List Path)
    (directory : Path)
    (tree : Node) :
    ∃ visits,
      setting.Visits cache resolving directory
        (setting.comesTo cache resolving directory tree) visits := by
  induction ends setting cache resolving directory tree with
  | @intro resolving directory tree _ inductionHypothesis =>
      have each :
          ∀ strings : List (KeyPath × String),
            (∀ string ∈ strings, string ∈ tree.strings []) →
              ∃ visits,
                setting.Visits cache resolving directory strings visits := by
        intro strings among
        induction strings with
        | nil => exact ⟨[], .none⟩
        | cons first rest restHypothesis =>
            obtain ⟨keyPath, value⟩ := first
            obtain ⟨here, behind⟩ := List.forall_mem_cons.mp among
            obtain ⟨visits, later⟩ := restHypothesis behind
            by_cases closed :
              ∀ path content,
                setting.Opens cache directory value path content →
                  path ∈ resolving
            · exact ⟨_, .single closed later⟩
            · push Not at closed
              obtain ⟨path, content, opens, fresh⟩ := closed
              obtain ⟨inner, within⟩ :=
                inductionHypothesis keyPath value path content here opens fresh
              exact ⟨_, .opening opens fresh within later⟩
      exact each _ fun string member => mem_of_mem_upTo member

theorem visits_unique
    {strings : List (KeyPath × String)} {visits other : List Visit}
    (first : setting.Visits cache resolving directory strings visits)
    (second : setting.Visits cache resolving directory strings other) :
    visits = other := by
  induction first generalizing other with
  | none =>
      cases second
      rfl
  | single closed _ inductionHypothesis =>
      cases second with
      | single _ later => rw [inductionHypothesis later]
      | opening opens fresh _ _ => exact absurd (closed _ _ opens) fresh
  | opening opens fresh _ _ innerHypothesis laterHypothesis =>
      cases second with
      | single closed _ => exact absurd (closed _ _ opens) fresh
      | opening opensOther _ within later =>
          obtain ⟨samePath, sameContent⟩ := opens_unique opens opensOther
          subst samePath
          subst sameContent
          rw [innerHypothesis within, laterHypothesis later]

/-! ## What visits report and ask for -/

/-- The outcome of the path that a string leads to. -/
def beyond
    (known : String → Option String)
    (followed : Path → Outcome Node)
    (directory : Path)
    (value : String) :
    Outcome Node :=
  match targetOf known directory value with
  | some path => followed path
  | none => .pure .null

/-- A string reports its own event first and then what its path does. -/
theorem events_stringOutcome
    (known : String → Option String)
    (followed : Path → Outcome Node)
    (directory : Path)
    (keyPaths : List KeyPath)
    (value : String) :
    (stringOutcome known followed directory value).events =
      ((Visit.mk keyPaths value).event? known).toList ++
        (beyond known followed directory value).events := by
  unfold stringOutcome Visit.event? beyond targetOf
  rcases Reference.classify value with reason | (_ | (text | ⟨name, subpath⟩))
  · rfl
  · rfl
  · rfl
  · cases answer : known name with
    | none => simp [answer, packageOutcome, Outcome.pure]
    | some root => simp [answer, packageOutcome]

/-- A string asks for its own package first and then for what its path does. -/
theorem asked_stringOutcome
    (known : String → Option String)
    (followed : Path → Outcome Node)
    (directory : Path)
    (keyPaths : List KeyPath)
    (value : String) :
    (stringOutcome known followed directory value).asked =
      (Visit.mk keyPaths value).package?.toList ++
        (beyond known followed directory value).asked := by
  unfold stringOutcome Visit.package? beyond targetOf
  rcases Reference.classify value with reason | (_ | (text | ⟨name, subpath⟩))
  · rfl
  · rfl
  · rfl
  · cases answer : known name with
    | none => simp [answer, packageOutcome, Outcome.pure]
    | some root => simp [answer, packageOutcome]

/-- Behind a string that opens a file stands what the file's tree does. -/
theorem beyond_of_opens
    {value : String} {path : Path} {content : Node}
    (opens : setting.Opens cache directory value path content)
    (fresh : path ∉ resolving) :
    beyond (cache.answer setting.search)
        (setting.followOutcome (cache.answer setting.search) resolving)
        directory value =
      setting.outcome (cache.answer setting.search) (path :: resolving)
        (homeOf path) content := by
  obtain ⟨leads, found⟩ := opens_iff.mp opens
  rw [beyond, leads]
  dsimp only
  rw [followOutcome_eq, found]
  simp only [if_neg fresh]
  rfl

/-- Behind a string that opens no file there is nothing to report and nothing to
ask for. -/
theorem beyond_of_closed
    {value : String}
    (closed :
      ∀ path content,
        setting.Opens cache directory value path content → path ∈ resolving) :
    let behind :=
      beyond (cache.answer setting.search)
        (setting.followOutcome (cache.answer setting.search) resolving)
        directory value
    behind.events = [] ∧ behind.asked = [] := by
  unfold beyond
  cases leads : targetOf (cache.answer setting.search) directory value with
  | none => exact ⟨rfl, rfl⟩
  | some path =>
      dsimp only
      rw [followOutcome_eq]
      rcases found : setting.inspect path with fault | ⟨node, _ | _⟩
      · exact ⟨rfl, rfl⟩
      · exact ⟨rfl, rfl⟩
      · have entered := closed path node (opens_iff.mpr ⟨leads, found⟩)
        simp only [if_pos entered]
        exact ⟨rfl, rfl⟩

private theorem comesTo_eq (tree : Node) :
    setting.comesTo cache resolving directory tree =
      Outcome.reached (stringOutcome (cache.answer setting.search)
        (setting.followOutcome (cache.answer setting.search) resolving)
            directory) (tree.strings []) := by
  unfold comesTo Outcome.reached
  congr 1
  funext string
  rw [result_string, stringResult]
  cases (stringOutcome (cache.answer setting.search)
      (setting.followOutcome (cache.answer setting.search) resolving) directory
      string.2).result with
  | error failure => rfl
  | ok node => rfl

/-- What strings report and ask for, one after the other, is what their visits
do. -/
theorem flatMap_of_visits
    {strings : List (KeyPath × String)} {visits : List Visit}
    (visited : setting.Visits cache resolving directory strings visits) :
    let known := cache.answer setting.search
    let handled :=
      stringOutcome known (setting.followOutcome known resolving) directory
    (strings.flatMap fun string => (handled string.2).events) =
      visits.filterMap (Visit.event? known) ∧
      (strings.flatMap fun string => (handled string.2).asked) =
        visits.filterMap Visit.package? := by
  simp only [List.filterMap_eq_flatMap_toList]
  induction visited with
  | none => exact ⟨rfl, rfl⟩
  | @single resolving directory keyPath value rest visits closed _
    inductionHypothesis =>
      obtain ⟨noEvents, noNames⟩ := beyond_of_closed closed
      obtain ⟨laterEvents, laterNames⟩ := inductionHypothesis
      constructor
      · rw [List.flatMap_cons, List.flatMap_cons, laterEvents,
          events_stringOutcome _ _ _ [keyPath], noEvents, List.append_nil]
      · rw [List.flatMap_cons, List.flatMap_cons, laterNames,
          asked_stringOutcome _ _ _ [keyPath], noNames, List.append_nil]
  | @opening resolving directory path content keyPath value rest inner visits
    opens fresh _ _ innerHypothesis laterHypothesis =>
      obtain ⟨innerEvents, innerNames⟩ := innerHypothesis
      obtain ⟨laterEvents, laterNames⟩ := laterHypothesis
      have content := beyond_of_opens opens fresh
      rw [comesTo_eq] at innerEvents innerNames
      constructor
      · rw [List.flatMap_cons, laterEvents,
          events_stringOutcome _ _ _ [keyPath], content, outcome,
          Node.events_outcome, innerEvents, List.cons_append, List.flatMap_cons,
          List.flatMap_append, List.flatMap_map, List.append_assoc]
        rfl
      · rw [List.flatMap_cons, laterNames, asked_stringOutcome _ _ _ [keyPath],
          content, outcome, Node.asked_outcome, innerNames, List.cons_append,
          List.flatMap_cons, List.flatMap_append, List.flatMap_map,
          List.append_assoc]
        rfl

/-- A tree reports the events of its visits. -/
theorem events_outcome
    {tree : Node} {visits : List Visit}
    (visited :
      setting.Visits cache resolving directory
        (setting.comesTo cache resolving directory tree) visits) :
    (setting.outcome (cache.answer setting.search) resolving directory
        tree).events =
      visits.filterMap (Visit.event? (cache.answer setting.search)) := by
  rw [comesTo_eq] at visited
  rw [outcome, Node.events_outcome]
  exact (flatMap_of_visits visited).1

/-- A tree asks for the packages of its visits. -/
theorem asked_outcome
    {tree : Node} {visits : List Visit}
    (visited :
      setting.Visits cache resolving directory
        (setting.comesTo cache resolving directory tree) visits) :
    (setting.outcome (cache.answer setting.search) resolving directory
        tree).asked = visits.filterMap Visit.package? := by
  rw [comesTo_eq] at visited
  rw [outcome, Node.asked_outcome]
  exact (flatMap_of_visits visited).2

/-! ## The last visit -/

private theorem exists_visits_of_append
    {before after : List (KeyPath × String)} {visits : List Visit}
    (visited :
      setting.Visits cache resolving directory (before ++ after) visits) :
    ∃ earlier later,
      visits = earlier ++ later ∧
      setting.Visits cache resolving directory after later := by
  induction before generalizing visits with
  | nil => exact ⟨[], visits, rfl, visited⟩
  | cons first rest inductionHypothesis =>
      cases visited with
      | single _ behind =>
          obtain ⟨earlier, later, rfl, visitedAfter⟩ :=
            inductionHypothesis behind
          exact ⟨_ :: earlier, later, rfl, visitedAfter⟩
      | opening _ _ _ behind =>
          obtain ⟨earlier, later, rfl, visitedAfter⟩ :=
            inductionHypothesis behind
          exact ⟨_ ++ earlier, later, (List.append_assoc _ _ _).symm,
            visitedAfter⟩

private theorem comesTo_of_meets
    {tree : Node} {keyPath : KeyPath} {value : String} {failure : Failure}
    (meets : setting.Meets cache resolving directory tree keyPath value)
    (failed :
      setting.result cache resolving directory (.string value) =
        .error failure) :
    ∃ before,
      setting.comesTo cache resolving directory tree =
        before ++ [(keyPath, value)] := by
  obtain ⟨before, after, split, all⟩ := meets
  refine ⟨before, ?_⟩
  unfold comesTo
  rw [split]
  apply upTo_append_of_stop
  · intro earlier member
    obtain ⟨node, ended⟩ := all earlier member
    rw [ended]
    rfl
  · rw [failed]
    rfl

/-- The last visit of a tree that fails is the string that fails. -/
theorem getLast?_visits
    {tree : Node}
    {keyPaths : List KeyPath}
    {cause : Fault}
    {visits : List Visit}
    (fails : setting.FailsAt cache resolving directory tree keyPaths cause)
    (visited :
      setting.Visits cache resolving directory
        (setting.comesTo cache resolving directory tree) visits) :
    visits.getLast?.map Visit.keyPaths = some keyPaths := by
  induction fails generalizing visits with
  | string meets failed =>
      obtain ⟨before, whole⟩ := comesTo_of_meets meets failed
      rw [whole] at visited
      obtain ⟨earlier, later, rfl, last⟩ := exists_visits_of_append visited
      cases last with
      | single _ behind =>
          cases behind
          rw [List.getLast?_concat]
          rfl
      | opening opens fresh _ _ =>
          exact absurd (entered_of_result opens failed) fresh
  | inside meets opens fresh within inductionHypothesis =>
      have failed := result_of_opens opens fresh
      rw [result_of_failsAt within] at failed
      obtain ⟨before, whole⟩ := comesTo_of_meets meets failed
      rw [whole] at visited
      obtain ⟨earlier, later, rfl, last⟩ := exists_visits_of_append visited
      cases last with
      | single closed _ => exact absurd (closed _ _ opens) fresh
      | opening opensAgain _ visitedInside behind =>
          obtain ⟨samePath, sameContent⟩ := opens_unique opens opensAgain
          subst samePath
          subst sameContent
          cases behind
          obtain ⟨deepest, lastInside, same⟩ :=
            Option.map_eq_some_iff.mp (inductionHypothesis visitedInside)
          rw [List.append_nil, List.getLast?_append, List.getLast?_cons,
            List.getLast?_map, lastInside]
          simp [Visit.under, same]

end Setting

end ConfigTree
