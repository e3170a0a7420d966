import ConfigTree.Proofs.Resolver.Result

/-!
# Cycles

Resolving inside files comes to an end whatever the files refer to, and it
reports a cycle exactly when it comes to a reference to a file that is being
resolved (`run_ends_and_finds_cycles`).
-/

namespace ConfigTree.Setting

/-- Going through a tree comes to a string of the tree or of a file on the way,
while so many files are being resolved; the string is relative to the last
directory. -/
inductive Reaches (setting : Setting) (cache : PackageCache) :
    List Path → Path → Node → List Path → Path → String → Prop where
  | here
      {resolving : List Path}
      {directory : Path}
      {tree : Node}
      {keyPath : KeyPath}
      {value : String}
      (meets : setting.Meets cache resolving directory tree keyPath value) :
      Reaches setting cache resolving directory tree resolving directory value
  | inside
      {resolving deeper : List Path}
      {directory path home : Path}
      {tree content : Node}
      {keyPath : KeyPath}
      {value last : String}
      (meets : setting.Meets cache resolving directory tree keyPath value)
      (opens : setting.Opens cache directory value path content)
      (fresh : path ∉ resolving)
      (within :
        Reaches setting cache (path :: resolving) (homeOf path) content deeper
          home last) :
      Reaches setting cache resolving directory tree deeper home last

variable {setting : Setting} {cache : PackageCache} {resolving : List Path}
  {directory : Path}

/-- Files that are being resolved are different ones, and each has been
opened. -/
theorem stack_of_reaches
    {tree : Node} {deeper : List Path} {home : Path} {last : String}
    (reaches : setting.Reaches cache resolving directory tree deeper home last)
    (distinct : resolving.Nodup)
    (opened :
      ∀ path ∈ resolving,
        ∃ content, readTarget setting.files path = .ok (content, true)) :
    deeper.Nodup ∧
      ∀ path ∈ deeper,
        ∃ content, readTarget setting.files path = .ok (content, true) := by
  induction reaches with
  | here meets => exact ⟨distinct, opened⟩
  | inside meets opens fresh _ inductionHypothesis =>
      apply inductionHypothesis (List.nodup_cons.mpr ⟨fresh, distinct⟩)
      exact List.forall_mem_cons.mpr ⟨⟨_, opens.read⟩, opened⟩

private theorem failsAt_of_reaches
    {tree content : Node}
    {deeper : List Path}
    {home path : Path}
    {last : String}
    (reaches : setting.Reaches cache resolving directory tree deeper home last)
    (opens : setting.Opens cache home last path content)
    (entered : path ∈ deeper) :
    ∃ keyPaths,
      setting.FailsAt cache resolving directory tree keyPaths
        (.referenceCycle path) := by
  induction reaches with
  | here meets =>
      exact ⟨_, .string meets (result_of_opens_again opens entered)⟩
  | inside meets within fresh _ inductionHypothesis =>
      obtain ⟨keyPaths, fails⟩ := inductionHypothesis opens entered
      exact ⟨_, .inside meets within fresh fails⟩

private theorem keyPaths_ne_nil_of_result
    {tree : Node} {failure : Failure}
    (failed : setting.result cache resolving directory tree = .error failure) :
    failure.keyPaths ≠ [] := by
  obtain ⟨keyPath, value, inner, _, _, rfl⟩ := result_eq_error_iff.mp failed
  exact List.cons_ne_nil _ _

/-- A string that opens a file fails under a key path inside the file, unless
the file is being resolved. -/
theorem entered_of_result
    {value : String} {path : Path} {content : Node} {cause : Fault}
    (opens : setting.Opens cache directory value path content)
    (failed :
      setting.result cache resolving directory (.string value) =
        .error ⟨[[]], cause⟩) :
    path ∈ resolving := by
  by_cases entered : path ∈ resolving
  · exact entered
  · rw [result_of_opens opens entered] at failed
    cases ended :
        setting.result cache (path :: resolving) (homeOf path) content with
    | ok node =>
        rw [ended] at failed
        cases failed
    | error failure =>
        have nonempty := keyPaths_ne_nil_of_result ended
        rw [ended] at failed
        obtain ⟨keyPaths, inner⟩ := failure
        cases failed
        exact absurd rfl nonempty

/-- A string that fails with a cycle by itself opens a file that is being
resolved. -/
theorem exists_opens_of_result
    {value : String} {path : Path}
    (failed :
      setting.result cache resolving directory (.string value) =
        .error ⟨[[]], .referenceCycle path⟩) :
    path ∈ resolving ∧
      ∃ content, setting.Opens cache directory value path content := by
  rcases result_string_cases setting cache resolving directory value with
    ⟨other, content, opens, fresh⟩ | ⟨other, content, opens, entered, ended⟩ |
      ⟨node, ended⟩ | ⟨cause, ended, different⟩
  · exact absurd (entered_of_result opens failed) fresh
  · rw [ended] at failed
    cases failed
    exact ⟨entered, content, opens⟩
  · rw [ended] at failed
    cases failed
  · rw [ended] at failed
    cases failed
    exact absurd rfl (different path)

private theorem exists_reaches_of_failsAt
    {tree : Node} {keyPaths : List KeyPath} {cause : Fault} {path : Path}
    (fails : setting.FailsAt cache resolving directory tree keyPaths cause)
    (cycle : cause = .referenceCycle path) :
    ∃ deeper home last content,
      setting.Reaches cache resolving directory tree deeper home last ∧
      setting.Opens cache home last path content ∧ path ∈ deeper := by
  induction fails with
  | string meets failed =>
      subst cycle
      obtain ⟨entered, content, opens⟩ := exists_opens_of_result failed
      exact ⟨_, _, _, content, .here meets, opens, entered⟩
  | inside meets within fresh _ inductionHypothesis =>
      obtain ⟨deeper, home, last, content, reaches, opens, entered⟩ :=
        inductionHypothesis cycle
      exact ⟨deeper, home, last, content, .inside meets within fresh reaches,
        opens, entered⟩

/-- Resolving a tree ends and finds exactly the cycles: it fails with one when,
before any other failure, it comes to a reference to a file that is being
resolved. A file whose resolution is over is not among these. -/
theorem run_ends_and_finds_cycles
    (setting : Setting)
    (cache : PackageCache)
    (directory : Path)
    (tree : Node) :
    setting.Ends cache [] directory tree ∧
    (∀ resolving home value,
      setting.Reaches cache [] directory tree resolving home value →
        resolving.Nodup ∧
          ∀ path ∈ resolving,
            ∃ content, readTarget setting.files path = .ok (content, true)) ∧
    ∀ path, (∃ keyPaths, (setting.run cache directory tree).1 =
        .error ⟨keyPaths, .referenceCycle path⟩) ↔
      ∃ resolving home value content,
        setting.Reaches cache [] directory tree resolving home value ∧
        setting.Opens cache home value path content ∧ path ∈ resolving := by
  refine ⟨ends setting cache [] directory tree, ?_, ?_⟩
  · intro resolving home value reaches
    exact stack_of_reaches reaches List.nodup_nil (by simp)
  · intro path
    constructor
    · intro given
      obtain ⟨keyPaths, failed⟩ := given
      exact
        exists_reaches_of_failsAt (result_eq_error_iff_failsAt.mp failed) rfl
    · intro given
      obtain ⟨resolving, home, value, content, reaches, opens, entered⟩ := given
      obtain ⟨keyPaths, fails⟩ := failsAt_of_reaches reaches opens entered
      exact ⟨keyPaths, result_of_failsAt fails⟩

end ConfigTree.Setting
