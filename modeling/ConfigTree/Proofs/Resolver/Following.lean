import ConfigTree.Proofs.Resolver.Through
import ConfigTree.Resolver.Basic

/-!
# Following references

What a run does with a string, with a path and with a tree, as outcomes that
depend on the cache only through its answers. Main statement: the run of a tree
from any journal (`run_resolveIn`).
-/

namespace ConfigTree

namespace Setting

/-- The node that stands at a path with nothing resolved, and whether its own
strings are resolved in turn. -/
def inspect (setting : Setting) (path : Path) : Except Fault (Node × Bool) :=
  match setting.files.kind path.text with
  | .error what => .error (.load (.obstacle path.text what))
  | .ok .other => .error (.unsupportedEntry path)
  | .ok .directory => .ok (.string path.text, false)
  | .ok .file =>
    match readTarget setting.files path with
    | .error fault => .error fault
    | .ok (node, composite) => .ok (node, setting.resolveNested && composite)

variable {setting : Setting} {known : String → Option String}

theorem inspect_eq_ok_true_iff {path : Path} {node : Node} :
    setting.inspect path = .ok (node, true) ↔
      setting.files.kind path.text = .ok .file ∧
        readTarget setting.files path = .ok (node, true) ∧
        setting.resolveNested = true := by
  unfold inspect
  cases kind : setting.files.kind path.text with
  | error what => simp
  | ok found =>
      cases found with
      | other => simp
      | directory => simp
      | file =>
          cases read : readTarget setting.files path with
          | error fault => simp
          | ok target =>
              obtain ⟨other, composite⟩ := target
              cases composite with
              | false => simp
              | true => simp

theorem length_le_of_inspect
    {path : Path}
    {node : Node}
    (found : setting.inspect path = .ok (node, true)) :
    path.text.toList.length ≤ FileSystem.pathLimit :=
  length_le_of_readTarget (inspect_eq_ok_true_iff.mp found).2.1

private theorem readTarget_ne_referenceCycle
    {files : FileSystem} {path cycle : Path} :
    readTarget files path ≠ .error (.referenceCycle cycle) := by
  unfold readTarget
  split
  · simp
  · split
    · simp
    · simp

/-- Looking at a path finds no cycle. -/
theorem inspect_ne_referenceCycle {path cycle : Path} :
    setting.inspect path ≠ .error (.referenceCycle cycle) := by
  unfold inspect
  split
  · simp
  · simp
  · simp
  · split
    · rename_i fault failed
      intro same
      cases same
      exact readTarget_ne_referenceCycle failed
    · simp

/-- The directory that the references of a file are relative to. -/
def homeOf (path : Path) : Path :=
  path.parent?.getD path

private theorem follow_eq
    (setting : Setting) (resolving : List Path) (path : Path) :
    setting.follow resolving path =
      match setting.inspect path with
      | .error fault => Resolution.fail fault
      | .ok (node, false) => return node
      | .ok (node, true) =>
        if path ∈ resolving then Resolution.fail (.referenceCycle path)
        else
            node.resolveWith
              (setting.resolveString (setting.follow (path :: resolving))
                (homeOf path)) [] := by
  rw [follow]
  unfold inspect
  rcases kind : setting.files.kind path.text with what | (_ | _ | _)
  · rfl
  · dsimp only
    split
    · rename_i fault read
      simp only [read]
    · rename_i node composite read
      simp only [read]
      cases setting.resolveNested && composite with
      | false => rfl
      | true => rfl
  · rfl
  · rfl

/-! ## Outcomes -/

/-- The outcome of a package reference once its name has got an answer. -/
def packageOutcome
    (followed : Path → Outcome Node) (name subpath : String) :
    Option String → Outcome Node
  | none => ⟨.ok (.missingPackage name), [.notFound name], []⟩
  | some root =>
    let path := (Path.ofText root).join subpath
    ⟨(followed path).result, .connected name path :: (followed path).events,
      (followed path).asked⟩

/-- The outcome of a string whose path, if it has one, has the outcome that is
given for it. -/
def stringOutcome
    (known : String → Option String)
    (followed : Path → Outcome Node)
    (directory : Path)
    (value : String) : Outcome Node :=
  match Reference.classify value with
  | .error reason => .fail (.ofFault (.malformedReference value reason))
  | .ok none => .pure (.string value)
  | .ok (some (.relative text)) => followed (directory.join text)
  | .ok (some (.package name subpath)) =>
    let answered := packageOutcome followed name subpath (known name)
    ⟨answered.result, answered.events, name :: answered.asked⟩

section PackageReferences

variable {known : String → Option String} {followed : Path → Outcome Node}
  {directory : Path} {value name subpath : String}

/-- A reference to a package that is not found leaves a mark of its name and is
reported. -/
theorem stringOutcome_of_missing
    (accepted : Reference.classify value = .ok (some (.package name subpath)))
    (missing : known name = none) :
    stringOutcome known followed directory value =
      ⟨.ok (.missingPackage name), [.notFound name], [name]⟩ := by
  rw [stringOutcome, accepted]
  dsimp only
  rw [missing]
  rfl

/-- A reference to a package that is found is reported before its path is
followed. -/
theorem stringOutcome_of_found
    {root : String}
    (accepted : Reference.classify value = .ok (some (.package name subpath)))
    (found : known name = some root) :
    stringOutcome known followed directory value =
      ⟨(followed ((Path.ofText root).join subpath)).result,
        .connected name ((Path.ofText root).join subpath) ::
          (followed ((Path.ofText root).join subpath)).events,
        name :: (followed ((Path.ofText root).join subpath)).asked⟩ := by
  rw [stringOutcome, accepted]
  dsimp only
  rw [found]
  rfl

end PackageReferences

/-- The outcome of following a path while the given files are being resolved. -/
def followOutcome
    (setting : Setting)
    (known : String → Option String)
    (resolving : List Path)
    (path : Path) :
    Outcome Node :=
  match found : setting.inspect path with
  | .error fault => .fail (.ofFault fault)
  | .ok (node, false) => .pure node
  | .ok (node, true) =>
    if entered : path ∈ resolving then .fail (.ofFault (.referenceCycle path))
    else
      have := Path.room_cons_lt (length_le_of_inspect found) entered
      let followed :=
        fun path' => setting.followOutcome known (path :: resolving) path'
      node.outcome (stringOutcome known followed (homeOf path)) []
termination_by Path.room FileSystem.pathLimit resolving
decreasing_by exact this

theorem followOutcome_eq
    (setting : Setting)
    (known : String → Option String)
    (resolving : List Path)
    (path : Path) :
    setting.followOutcome known resolving path =
      match setting.inspect path with
      | .error fault => .fail (.ofFault fault)
      | .ok (node, false) => .pure node
      | .ok (node, true) =>
        if path ∈ resolving then .fail (.ofFault (.referenceCycle path))
        else
            node.outcome
              (stringOutcome known
                (setting.followOutcome known (path :: resolving)) (homeOf path))
              [] := by
  rw [followOutcome]
  split
  · rename_i failed
    simp only [failed]
  · rename_i found
    simp only [found]
  · rename_i found
    simp only [found]
    rfl

section Runs

open Resolution (HasOutcome)

variable {follow : Path → Resolution Node} {followed : Path → Outcome Node}

private theorem hasOutcome_resolveString
    (does :
      ∀ path, HasOutcome setting.search known (follow path) (followed path))
    (directory : Path) (value : String) :
    HasOutcome setting.search known
      (setting.resolveString follow directory value)
      (stringOutcome known followed directory value) := by
  unfold resolveString stringOutcome
  cases Reference.classify value with
  | error reason => exact Resolution.hasOutcome_fail _
  | ok reference =>
      rcases reference with _ | (text | ⟨name, subpath⟩)
      · exact Resolution.hasOutcome_pure _
      · exact does _
      · refine Resolution.hasOutcome_bind (Resolution.hasOutcome_locate name) ?_
        intro answer _
        cases answer with
        | none =>
            exact Resolution.hasOutcome_bind
              (Resolution.hasOutcome_report (.notFound name)) fun _ _ =>
              Resolution.hasOutcome_pure (Node.missingPackage name)
        | some root =>
            exact Resolution.hasOutcome_bind
              (Resolution.hasOutcome_report
                (.connected name ((Path.ofText root).join subpath)))
              fun _ _ => does ((Path.ofText root).join subpath)

private theorem hasOutcome_follow (resolving : List Path) (path : Path) :
    HasOutcome setting.search known (setting.follow resolving path)
      (setting.followOutcome known resolving path) := by
  rw [follow_eq, followOutcome_eq]
  split
  · exact Resolution.hasOutcome_fail _
  · exact Resolution.hasOutcome_pure _
  · rename_i node found
    by_cases entered : path ∈ resolving
    · rw [if_pos entered, if_pos entered]
      exact Resolution.hasOutcome_fail _
    · rw [if_neg entered, if_neg entered]
      have shorter := Path.room_cons_lt (length_le_of_inspect found) entered
      have does := fun path' => hasOutcome_follow (path :: resolving) path'
      exact Node.hasOutcome_resolveWith
        (hasOutcome_resolveString does (homeOf path)) [] node
termination_by Path.room FileSystem.pathLimit resolving

end Runs

/-- A tree with its references resolved, relative to a directory, while the
given files are being resolved. -/
def resolveIn
    (setting : Setting)
    (resolving : List Path)
    (directory : Path)
    (tree : Node) :
    Resolution Node :=
  tree.resolveWith (setting.resolveString (setting.follow resolving) directory)
    []

def outcome
    (setting : Setting)
    (known : String → Option String)
    (resolving : List Path)
    (directory : Path)
    (tree : Node) : Outcome Node :=
  tree.outcome
    (stringOutcome known (setting.followOutcome known resolving) directory) []

private theorem hasOutcome_resolveIn
    (resolving : List Path) (directory : Path) (tree : Node) :
    Resolution.HasOutcome setting.search known
      (setting.resolveIn resolving directory tree)
      (setting.outcome known resolving directory tree) :=
  Node.hasOutcome_resolveWith
    (hasOutcome_resolveString (fun path => hasOutcome_follow resolving path)
      directory) [] tree

theorem run_resolveIn
    (setting : Setting)
    (resolving : List Path)
    (directory : Path)
    (tree : Node)
    (journal : Journal) :
    (setting.resolveIn resolving directory tree).run journal =
      ((setting.outcome (journal.cache.answer setting.search) resolving
          directory tree).result,
        journal.extend setting.search
          (setting.outcome (journal.cache.answer setting.search) resolving
            directory tree).events
          (setting.outcome (journal.cache.answer setting.search) resolving
            directory tree).asked) :=
  hasOutcome_resolveIn resolving directory tree journal rfl

end Setting

end ConfigTree
