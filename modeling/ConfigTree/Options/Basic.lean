import ConfigTree.Document.Loading

/-!
# Options of a resolution
-/

namespace ConfigTree

structure Options where
  /-- The directory that holds the modules directory, the current one if none is
  given. -/
  projectRoot : Option String
  /-- The modules directory under the project root. -/
  modulesDir : String
  /-- Whether references inside referenced files are resolved too. -/
  resolveNested : Bool
deriving DecidableEq, Repr

namespace Options

def default : Options :=
  ⟨none, "node_modules", false⟩

instance : Inhabited Options :=
  ⟨default⟩

/-- The directory that packages are installed in. -/
def modulesRoot
    (files : FileSystem) (options : Options) :
    Except LoadFault Path :=
  match options.projectRoot with
  | none => .ok ((Path.ofText files.currentText).join options.modulesDir)
  | some root =>
    match files.absolute root with
    | .ok root => .ok (root.join options.modulesDir)
    | .error what => .error (.obstacle root what)

end Options

end ConfigTree
