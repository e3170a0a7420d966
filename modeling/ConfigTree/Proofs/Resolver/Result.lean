import ConfigTree.Proofs.Resolver.Following

/-!
# Results

What a tree results in is decided by its strings, each as if it were alone
(`result_eq_ok_iff`, `result_eq_error_iff`), and a string that opens a file
results in what the file's tree does (`result_of_opens`).
-/

namespace ConfigTree

private theorem Failure.under_injective
    {keyPath : KeyPath} {failure other : Failure}
    (same : failure.under keyPath = other.under keyPath) : failure = other := by
  obtain ⟨keyPaths, cause⟩ := failure
  obtain ⟨otherPaths, otherCause⟩ := other
  cases same
  rfl

namespace Setting

/-- The run that resolves a tree: what it results in and the journal it
leaves. -/
def run
    (setting : Setting)
    (cache : PackageCache)
    (directory : Path)
    (tree : Node) :
    Except Failure Node × Journal :=
  (setting.resolveTree directory tree).run (.start cache)

/-- From a base seen from the root, a resolver's run is that of its setting in
the base. -/
theorem resolveWithCache_of_isAbsolute
    {resolver : Resolver} (absolute : resolver.base.isAbsolute = true)
    (files : FileSystem)
    (source : PackageSource)
    (cache : PackageCache)
    (tree : Node) :
    resolver.resolveWithCache files source cache tree =
      run ⟨files, source.search files, resolver.options.resolveNested⟩ cache
        resolver.base tree := by
  unfold Resolver.resolveWithCache Resolver.absoluteBase
  rw [if_pos absolute]
  rfl

/-- Whatever its base, a resolver's run is that of its setting in a base seen
from the root. -/
theorem exists_run_of_resolveWithCache
    (resolver : Resolver)
    (files : FileSystem)
    (source : PackageSource)
    (cache : PackageCache)
    (tree : Node) :
    ∃ base, resolver.absoluteBase files = .ok base ∧
      resolver.resolveWithCache files source cache tree =
        run ⟨files, source.search files, resolver.options.resolveNested⟩ cache
          base tree := by
  have written : resolver.base.text ≠ "" := by
    intro empty
    have same := Path.ofText_text resolver.base
    rw [empty] at same
    rw [← same] at empty
    exact absurd empty (by decide)
  obtain ⟨base, seen⟩ : ∃ base, resolver.absoluteBase files = .ok base := by
    unfold Resolver.absoluteBase
    by_cases absolute : resolver.base.isAbsolute = true
    · exact ⟨resolver.base, if_pos absolute⟩
    · rw [if_neg absolute, FileSystem.absolute, if_neg written]
      exact ⟨_, rfl⟩
  refine ⟨base, seen, ?_⟩
  unfold Resolver.resolveWithCache
  rw [seen]
  rfl

/-- What a run results in that begins with the tree, relative to a directory,
while the given files are being resolved. -/
def result
    (setting : Setting)
    (cache : PackageCache)
    (resolving : List Path)
    (directory : Path)
    (tree : Node) :
    Except Failure Node :=
  ((setting.resolveIn resolving directory tree).run (.start cache)).1

/-- The same for a string by itself, with failures not yet put under its key
path. -/
def stringResult
    (setting : Setting)
    (cache : PackageCache)
    (resolving : List Path)
    (directory : Path)
    (value : String) : Except Failure Node :=
  let known := cache.answer setting.search
  (stringOutcome known (setting.followOutcome known resolving) directory
    value).result

variable {setting : Setting} {cache : PackageCache} {resolving : List Path}
  {directory : Path}

theorem run_fst (tree : Node) :
    (setting.run cache directory tree).1 =
      setting.result cache [] directory tree :=
  rfl

theorem result_eq (tree : Node) :
    setting.result cache resolving directory tree =
      (setting.outcome (cache.answer setting.search) resolving directory
        tree).result := by
  unfold result
  rw [run_resolveIn]
  rfl

theorem result_string (value : String) :
    setting.result cache resolving directory (.string value) =
      (setting.stringResult cache resolving directory value).mapError
        (·.under []) := by
  rw [result_eq, outcome, Node.outcome_string]
  rfl

theorem result_string_eq_ok_iff {value : String} {node : Node} :
    setting.result cache resolving directory (.string value) = .ok node ↔
      setting.stringResult cache resolving directory value = .ok node := by
  rw [result_string]
  cases setting.stringResult cache resolving directory value with
  | error failure => constructor <;> intro same <;> cases same
  | ok found => exact Iff.rfl

private theorem result_string_eq_error_iff {value : String} {inner : Failure} :
    setting.result cache resolving directory (.string value) =
        .error (inner.under []) ↔
      setting.stringResult cache resolving directory value = .error inner := by
  rw [result_string]
  cases setting.stringResult cache resolving directory value with
  | error failure =>
      constructor
      · intro same
        exact congrArg Except.error
          (Failure.under_injective (Except.error.inj same))
      · intro same
        cases same
        rfl
  | ok found => constructor <;> intro same <;> cases same

/-- A tree comes out exactly when each of its strings does by itself. -/
theorem result_eq_ok_iff {tree : Node} :
    (∃ node, setting.result cache resolving directory tree = .ok node) ↔
      ∀ string ∈ tree.strings [],
        ∃ node,
          setting.result cache resolving directory (.string string.2) =
            .ok node := by
  simp only [result_string_eq_ok_iff, stringResult]
  rw [← Outcome.through_eq_ok_iff, result_eq, outcome, Node.outcome,
    Outcome.map]
  cases (Outcome.through _ (tree.strings [])).result with
  | error failure => simp [Except.map]
  | ok nothing => simp [Except.map]

/-- Going through a tree comes to a string: all strings before it come out. -/
def Meets
    (setting : Setting)
    (cache : PackageCache)
    (resolving : List Path)
    (directory : Path)
    (tree : Node)
    (keyPath : KeyPath) (value : String) : Prop :=
  ∃ before after, tree.strings [] = before ++ (keyPath, value) :: after ∧
    ∀ earlier ∈ before,
      ∃ node,
        setting.result cache resolving directory (.string earlier.2) = .ok node

theorem Meets.mem_strings
    {tree : Node} {keyPath : KeyPath} {value : String}
    (meets : setting.Meets cache resolving directory tree keyPath value) :
    (keyPath, value) ∈ tree.strings [] := by
  obtain ⟨before, after, split, _⟩ := meets
  rw [split]
  exact List.mem_append_right _ (List.mem_cons_self ..)

/-- A tree fails with what its first failing string fails with by itself, put
under the key path of that string. -/
theorem result_eq_error_iff {tree : Node} {failure : Failure} :
    setting.result cache resolving directory tree = .error failure ↔
      ∃ keyPath value, ∃ inner : Failure,
        setting.Meets cache resolving directory tree keyPath value ∧
        setting.result cache resolving directory (.string value) =
          .error (inner.under []) ∧
        failure = inner.under keyPath := by
  have whole :
      setting.result cache resolving directory tree = .error failure ↔
        (Outcome.through (stringOutcome (cache.answer setting.search)
          (setting.followOutcome (cache.answer setting.search) resolving)
            directory)
          (tree.strings [])).result = .error failure := by
    rw [result_eq, outcome, Node.outcome, Outcome.map]
    cases (Outcome.through _ (tree.strings [])).result with
    | error other => simp [Except.map]
    | ok nothing => simp [Except.map]
  rw [whole, Outcome.through_eq_error_iff]
  simp only [Meets, result_string_eq_ok_iff, result_string_eq_error_iff,
    stringResult]
  constructor
  · intro given
    obtain ⟨before, keyPath, value, after, inner, split, all, failed, same⟩ :=
      given
    exact ⟨keyPath, value, inner, ⟨before, after, split, all⟩, failed, same⟩
  · intro given
    obtain ⟨keyPath, value, inner, ⟨before, after, split, all⟩, failed, same⟩ :=
      given
    exact ⟨before, keyPath, value, after, inner, split, all, failed, same⟩

/-! ## Strings that open files -/

/-- The path that a string leads to, if it is a reference and its package is
found. -/
def targetOf
    (known : String → Option String) (directory : Path) (value : String) :
    Option Path :=
  match Reference.classify value with
  | .ok (some (.relative text)) => some (directory.join text)
  | .ok (some (.package name subpath)) =>
      (known name).map fun root => (Path.ofText root).join subpath
  | _ => none

/-- The string leads to a file with a tree whose own strings are resolved in
turn. -/
structure Opens
    (setting : Setting)
    (cache : PackageCache)
    (directory : Path)
    (value : String)
    (path : Path)
    (content : Node) : Prop where
  leads : targetOf (cache.answer setting.search) directory value = some path
  isFile : setting.files.kind path.text = .ok .file
  read : readTarget setting.files path = .ok (content, true)
  nested : setting.resolveNested = true

theorem stringOutcome_of_target
    {known : String → Option String}
    {followed : Path → Outcome Node}
    {value : String}
    {path : Path}
    (leads : targetOf known directory value = some path) :
    (stringOutcome known followed directory value).result =
      (followed path).result := by
  unfold targetOf at leads
  unfold stringOutcome
  rcases classified : Reference.classify value with
    reason | (_ | (text | ⟨name, subpath⟩))
  · rw [classified] at leads
    cases leads
  · rw [classified] at leads
    cases leads
  · rw [classified] at leads
    cases leads
    rfl
  · rw [classified] at leads
    cases answer : known name with
    | none =>
        simp [answer] at leads
    | some root =>
        simp only [answer, Option.map_some, Option.some.injEq] at leads
        subst leads
        simp only [answer, packageOutcome]

private theorem stringOutcome_of_no_target
    {known : String → Option String}
    {followed : Path → Outcome Node}
    {value : String}
    (leads : targetOf known directory value = none) :
    (∃ node, (stringOutcome known followed directory value).result = .ok node) ∨
      ∃ reason, (stringOutcome known followed directory value).result =
        .error (.ofFault (.malformedReference value reason)) := by
  unfold targetOf at leads
  unfold stringOutcome
  rcases classified : Reference.classify value with
    reason | (_ | (text | ⟨name, subpath⟩))
  · exact Or.inr ⟨reason, rfl⟩
  · exact Or.inl ⟨.string value, rfl⟩
  · rw [classified] at leads
    cases leads
  · rw [classified] at leads
    cases answer : known name with
    | none =>
        exact
          Or.inl ⟨.missingPackage name, by simp only [answer, packageOutcome]⟩
    | some root => simp [answer] at leads

theorem opens_iff {value : String} {path : Path} {content : Node} :
    setting.Opens cache directory value path content ↔
      targetOf (cache.answer setting.search) directory value = some path ∧
        setting.inspect path = .ok (content, true) := by
  rw [inspect_eq_ok_true_iff]
  constructor
  · intro given
    obtain ⟨leads, isFile, read, nested⟩ := given
    exact ⟨leads, isFile, read, nested⟩
  · intro given
    obtain ⟨leads, isFile, read, nested⟩ := given
    exact ⟨leads, isFile, read, nested⟩

/-- A string that opens a file results in what the file's tree does while the
file is being resolved. -/
theorem result_of_opens
    {value : String} {path : Path} {content : Node}
    (opens : setting.Opens cache directory value path content)
    (fresh : path ∉ resolving) :
    setting.result cache resolving directory (.string value) =
      (setting.result cache (path :: resolving) (homeOf path) content).mapError
        (·.under []) := by
  obtain ⟨leads, found⟩ := opens_iff.mp opens
  rw [result_string, result_eq, stringResult, stringOutcome_of_target leads,
    followOutcome_eq, found]
  simp only [if_neg fresh]
  rfl

theorem result_of_opens_again
    {value : String} {path : Path} {content : Node}
    (opens : setting.Opens cache directory value path content)
    (entered : path ∈ resolving) :
    setting.result cache resolving directory (.string value) =
      .error ⟨[[]], .referenceCycle path⟩ := by
  obtain ⟨leads, found⟩ := opens_iff.mp opens
  rw [result_string, stringResult, stringOutcome_of_target leads,
    followOutcome_eq, found]
  simp only [if_pos entered]
  rfl

/-- A string that opens no file comes out or fails with a cause of its own,
which is no cycle. -/
theorem result_of_not_opens
    {value : String}
    (closed :
      ∀ path content, ¬ setting.Opens cache directory value path content) :
    (∃ node,
      setting.result cache resolving directory (.string value) = .ok node) ∨
      ∃ cause,
        setting.result cache resolving directory (.string value) =
          .error ⟨[[]], cause⟩ ∧ ∀ path, cause ≠ .referenceCycle path := by
  rw [result_string, stringResult]
  cases leads : targetOf (cache.answer setting.search) directory value with
  | none =>
      rcases stringOutcome_of_no_target leads with
        ⟨node, ended⟩ | ⟨reason, ended⟩
      · rw [ended]
        exact Or.inl ⟨node, rfl⟩
      · rw [ended]
        exact Or.inr ⟨.malformedReference value reason, rfl, by simp⟩
  | some path =>
      rw [stringOutcome_of_target leads, followOutcome_eq]
      rcases found : setting.inspect path with fault | ⟨node, _ | _⟩
      · refine Or.inr ⟨fault, rfl, ?_⟩
        intro cycle same
        subst same
        exact inspect_ne_referenceCycle found
      · exact Or.inl ⟨node, rfl⟩
      · exact absurd (opens_iff.mpr ⟨leads, found⟩) (closed path node)

/-- A string opens a file, or a file that is being resolved, or it comes out, or
it fails with a cause of its own. -/
theorem result_string_cases
    (setting : Setting)
    (cache : PackageCache)
    (resolving : List Path)
    (directory : Path)
    (value : String) :
    (∃ path content,
      setting.Opens cache directory value path content ∧ path ∉ resolving) ∨
    (∃ path content,
      setting.Opens cache directory value path content ∧ path ∈ resolving ∧
      setting.result cache resolving directory (.string value) =
        .error ⟨[[]], .referenceCycle path⟩) ∨
    (∃ node,
      setting.result cache resolving directory (.string value) = .ok node) ∨
    ∃ cause,
      setting.result cache resolving directory (.string value) =
        .error ⟨[[]], cause⟩ ∧ ∀ path, cause ≠ .referenceCycle path := by
  by_cases closed :
    ∀ path content, ¬ setting.Opens cache directory value path content
  · exact Or.inr (Or.inr (result_of_not_opens closed))
  · obtain ⟨path, content, opens⟩ :
        ∃ path content, setting.Opens cache directory value path content := by
      simpa using closed
    by_cases entered : path ∈ resolving
    · exact Or.inr
        (Or.inl
          ⟨path, content, opens, entered, result_of_opens_again opens entered⟩)
    · exact Or.inl ⟨path, content, opens, entered⟩

/-- A reference to a package that is not found comes out as a mark of it. -/
theorem result_of_missing
    {value name subpath : String}
    (accepted : Reference.classify value = .ok (some (.package name subpath)))
    (missing : cache.answer setting.search name = none) :
    setting.result cache resolving directory (.string value) =
      .ok (.missingPackage name) := by
  rw [result_string_eq_ok_iff, stringResult, stringOutcome, accepted]
  simp only [missing, packageOutcome]

/-- A reference to an installed package that is a directory comes out as the
directory's path. -/
theorem result_of_installed
    {value name subpath root : String}
    (accepted : Reference.classify value = .ok (some (.package name subpath)))
    (found : cache.answer setting.search name = some root)
    (isDirectory :
      setting.files.kind ((Path.ofText root).join subpath).text =
        .ok .directory) :
    setting.result cache resolving directory (.string value) =
      .ok (.string ((Path.ofText root).join subpath).text) := by
  have inspected : setting.inspect ((Path.ofText root).join subpath) =
      .ok (.string ((Path.ofText root).join subpath).text, false) := by
    rw [inspect, isDirectory]
  rw [result_string_eq_ok_iff, stringResult,
    stringOutcome_of_found accepted found, followOutcome_eq, inspected]
  rfl

/-! ## Files inside files -/

/-- There is no endless way into files, each opened by a string of the one
before it and none twice. -/
inductive Ends
    (setting : Setting) (cache : PackageCache) :
    List Path → Path → Node → Prop where
  | intro {resolving : List Path} {directory : Path} {tree : Node}
      (inside :
        ∀ keyPath value path content,
          (keyPath, value) ∈ tree.strings [] →
            setting.Opens cache directory value path content →
            path ∉ resolving →
            Ends setting cache (path :: resolving) (homeOf path) content) :
      Ends setting cache resolving directory tree

theorem ends
    (setting : Setting)
    (cache : PackageCache)
    (resolving : List Path)
    (directory : Path)
    (tree : Node) :
    setting.Ends cache resolving directory tree := by
  constructor
  intro keyPath value path content _ opens fresh
  have shorter := Path.room_cons_lt (length_le_of_readTarget opens.read) fresh
  exact ends setting cache (path :: resolving) (homeOf path) content
termination_by Path.room FileSystem.pathLimit resolving

/-! ## Where a tree fails -/

/-- The key paths that lead to the string that fails, from the tree at hand
through the files on the way to it. -/
inductive FailsAt (setting : Setting) (cache : PackageCache) :
    List Path → Path → Node → List KeyPath → Fault → Prop where
  | string
      {resolving : List Path}
      {directory : Path}
      {tree : Node}
      {keyPath : KeyPath}
      {value : String}
      {cause : Fault}
      (meets : setting.Meets cache resolving directory tree keyPath value)
      (failed :
        setting.result cache resolving directory (.string value) =
          .error ⟨[[]], cause⟩) :
      FailsAt setting cache resolving directory tree [keyPath] cause
  | inside
      {resolving : List Path}
      {directory path : Path}
      {tree content : Node}
      {keyPath : KeyPath}
      {value : String}
      {keyPaths : List KeyPath}
      {cause : Fault}
      (meets : setting.Meets cache resolving directory tree keyPath value)
      (opens : setting.Opens cache directory value path content)
      (fresh : path ∉ resolving)
      (within :
        FailsAt setting cache (path :: resolving) (homeOf path) content keyPaths
          cause) :
      FailsAt setting cache resolving directory tree (keyPath :: keyPaths) cause

theorem result_of_failsAt
    {tree : Node} {keyPaths : List KeyPath} {cause : Fault}
    (fails : setting.FailsAt cache resolving directory tree keyPaths cause) :
    setting.result cache resolving directory tree =
      .error ⟨keyPaths, cause⟩ := by
  induction fails with
  | string meets failed =>
      exact result_eq_error_iff.mpr ⟨_, _, .ofFault _, meets, failed, rfl⟩
  | inside meets opens fresh _ inductionHypothesis =>
      apply result_eq_error_iff.mpr
      refine ⟨_, _, ⟨_, _⟩, meets, ?_, rfl⟩
      rw [result_of_opens opens fresh, inductionHypothesis]
      rfl

theorem failsAt_of_result
    {tree : Node} {failure : Failure}
    (failed : setting.result cache resolving directory tree = .error failure) :
    setting.FailsAt cache resolving directory tree failure.keyPaths
      failure.cause := by
  induction ends setting cache resolving directory tree
      generalizing failure with
  | @intro resolving directory tree _ inductionHypothesis =>
      obtain ⟨keyPath, value, ⟨innerPaths, innerCause⟩, meets, own, rfl⟩ :=
        result_eq_error_iff.mp failed
      rcases result_string_cases setting cache resolving directory value with
        ⟨path, content, opens, fresh⟩ | ⟨path, content, _, _, ended⟩ |
          ⟨node, ended⟩ | ⟨cause, ended, _⟩
      · rw [result_of_opens opens fresh] at own
        cases ended :
            setting.result cache (path :: resolving) (homeOf path) content with
        | ok node =>
            rw [ended] at own
            cases own
        | error deeper =>
            rw [ended] at own
            cases own
            exact .inside meets opens fresh
              (inductionHypothesis keyPath value path content meets.mem_strings
                opens fresh ended)
      · rw [ended] at own
        cases own
        exact .string meets ended
      · rw [ended] at own
        cases own
      · rw [ended] at own
        cases own
        exact .string meets ended

theorem result_eq_error_iff_failsAt {tree : Node} {failure : Failure} :
    setting.result cache resolving directory tree = .error failure ↔
      setting.FailsAt cache resolving directory tree failure.keyPaths
        failure.cause :=
  ⟨failsAt_of_result, result_of_failsAt⟩

end Setting

end ConfigTree
