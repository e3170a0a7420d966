import ConfigTree.Options.Basic
import ConfigTree.Package.Search
import ConfigTree.Resolver.Traversal

/-!
# Resolving references

A reference to a directory becomes the directory's path, a reference to a file
what the file holds. When references inside such files are resolved too, they
are relative to the directory of the file that holds them, and a file cannot be
referred to from within itself.
-/

namespace ConfigTree

/-- Where packages are looked for: in a fixed list of names and paths, or in a
modules directory. -/
inductive PackageSource where
  | listed (packages : List (String × String))
  | modules (directory : Path)
deriving DecidableEq

def PackageSource.search
    (files : FileSystem) :
    PackageSource → String → Option String
  | .listed packages, name => packages.lookup name
  | .modules directory, name => files.searchModules directory.text name

/-- What references are resolved against. -/
structure Setting where
  files : FileSystem
  search : String → Option String
  resolveNested : Bool

namespace Setting

/-- The tree at a path with nothing resolved, and whether it holds a mapping or
a sequence. -/
def readTarget
    (files : FileSystem) (path : Path) :
    Except Fault (Node × Bool) :=
  match files.load path with
  | .error fault => .error (.load fault)
  | .ok document =>
    match document.toNode with
    | .error duplicate => .error (.duplicateKey duplicate.key)
    | .ok node => .ok (node, document.isComposite)

theorem length_le_of_readTarget
    {files : FileSystem} {path : Path} {target : Node × Bool}
    (read : readTarget files path = .ok target) :
    path.text.toList.length ≤ FileSystem.pathLimit := by
  cases loaded : files.load path with
  | ok document => exact FileSystem.length_le_of_load loaded
  | error fault =>
    unfold readTarget at read
    rw [loaded] at read
    cases read

/-- What a string of a tree stands for. References are relative to a directory,
and their paths are followed by the given function. -/
def resolveString
    (setting : Setting)
    (follow : Path → Resolution Node)
    (directory : Path)
    (value : String) :
    Resolution Node :=
  match Reference.classify value with
  | .error reason => Resolution.fail (.malformedReference value reason)
  | .ok none => return .string value
  | .ok (some (.relative text)) => follow (directory.join text)
  | .ok (some (.package name subpath)) => do
    match ← Resolution.locate setting.search name with
    | none =>
      Resolution.report (.notFound name)
      return .missingPackage name
    | some root =>
      let path := (Path.ofText root).join subpath
      Resolution.report (.connected name path)
      follow path

/-- What the entry at a path stands for, met while the given files are being
resolved. -/
def follow
    (setting : Setting) (resolving : List Path) (path : Path) :
    Resolution Node :=
  match setting.files.kind path.text with
  | .error what => Resolution.fail (.load (.obstacle path.text what))
  | .ok .other => Resolution.fail (.unsupportedEntry path)
  | .ok .directory => return .string path.text
  | .ok .file =>
    match read : readTarget setting.files path with
    | .error fault => Resolution.fail fault
    | .ok (node, composite) =>
      if setting.resolveNested && composite then
        if entered : path ∈ resolving then
          Resolution.fail (.referenceCycle path)
        else
          have := Path.room_cons_lt (length_le_of_readTarget read) entered
          let inside :=
            setting.resolveString
              (fun path' => setting.follow (path :: resolving) path')
              (path.parent?.getD path)
          node.resolveWith inside []
      else return node
termination_by Path.room FileSystem.pathLimit resolving
decreasing_by exact this

/-- A tree with its references resolved, relative to a directory. -/
def resolveTree
    (setting : Setting) (directory : Path) (tree : Node) :
    Resolution Node :=
  tree.resolveWith (setting.resolveString (setting.follow []) directory) []

end Setting

/-! ## Resolvers -/

structure Resolver where
  base : Path
  options : Options
  /-- The packages to take instead of those in the modules directory. -/
  packages : Option (List (String × String))

namespace Resolver

def ofText (base : String) (options : Options) : Resolver :=
  ⟨Path.ofText base, options, none⟩

/-- The source that the resolver asks for packages. -/
def source
    (files : FileSystem) (resolver : Resolver) :
    Except LoadFault PackageSource :=
  match resolver.packages with
  | some packages => .ok (.listed packages)
  | none => (resolver.options.modulesRoot files).map .modules

/-- The directory that references are relative to, seen from the root. -/
def absoluteBase
    (files : FileSystem) (resolver : Resolver) :
    Except LoadFault Path :=
  if resolver.base.isAbsolute then .ok resolver.base
  else
    match files.absolute resolver.base.text with
    | .ok base => .ok base
    | .error what => .error (.obstacle resolver.base.text what)

/-- Resolves a tree with packages from a source and a cache. -/
def resolveWithCache
    (files : FileSystem)
    (resolver : Resolver)
    (source : PackageSource)
    (cache : PackageCache)
    (tree : Node) : Except Failure Node × Journal :=
  match resolver.absoluteBase files with
  | .error fault => (.error (.ofFault (.load fault)), .start cache)
  | .ok base =>
    let setting : Setting :=
      ⟨files, source.search files, resolver.options.resolveNested⟩
    (setting.resolveTree base tree).run (.start cache)

/-- Resolves a tree with a cache of its own. -/
def resolve
    (files : FileSystem) (resolver : Resolver) (tree : Node) :
    Except Failure Node × Journal :=
  match resolver.source files with
  | .error fault => (.error (.ofFault (.load fault)), .start .empty)
  | .ok source => resolver.resolveWithCache files source .empty tree

end Resolver

/-! ## Files -/

namespace FileSystem

/-- The tree at a path with nothing resolved. -/
def readTree (files : FileSystem) (path : Path) : Except Failure Node :=
  match Setting.readTarget files path with
  | .ok (node, _) => .ok node
  | .error fault => .error (.ofFault fault)

/-- The resolved tree of a file in the resolver's directory. -/
def loadConfig
    (files : FileSystem) (resolver : Resolver) (name : String) :
    Except Failure Node :=
  match files.readTree (resolver.base.join name) with
  | .error failure => .error failure
  | .ok tree => (resolver.resolve files tree).1

end FileSystem

end ConfigTree
