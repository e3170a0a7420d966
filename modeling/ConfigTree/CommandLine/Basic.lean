import ConfigTree.CommandLine.Help
import ConfigTree.Json.Printer
import ConfigTree.Routing
import ConfigTree.Settings

/-!
# The command line

A command resolves one file and prints the tree, or the routing table that it
makes. Everything is seen from the current directory of a file system; nothing
is written but text.
-/

namespace ConfigTree.CommandLine

/-- What a run leaves behind: an exit code, and the texts of both output
streams. -/
structure Outcome where
  code : Nat
  output : String
  errors : String
deriving DecidableEq, Repr, Inhabited

/-- Why a command gives up. -/
inductive Refusal where
  | noParent (path : Path)
  | failure (failure : Failure)

def Refusal.message : Refusal → String
  | .noParent path => path.text ++ " has no parent directory"
  | .failure what => what.message

def Refusal.ofFault (fault : LoadFault) : Refusal :=
  .failure (.ofFault (.load fault))

def absolute (files : FileSystem) (text : String) : Except Refusal Path :=
  match files.absolute text with
  | .ok path => .ok path
  | .error what => .error (.ofFault (.obstacle text what))

/-- The directory that references are relative to: the one asked for, or that of
the file. -/
def baseOf
    (files : FileSystem) (request : Request) (file : Path) :
    Except Refusal Path :=
  match request.baseDir with
  | some directory => absolute files directory
  | none =>
    match file.parent? with
    | some directory => .ok directory
    | none => .error (.noParent file)

/-- The options of a file, if one is named, with those of the command line in
their place. -/
def optionsOf
    (files : FileSystem) (request : Request) :
    Except Refusal Options := do
  let options ← match request.optionsFile with
    | none => pure Options.default
    | some text =>
        (files.loadOptions (← absolute files text)).mapError Refusal.ofFault
  return {
    projectRoot := request.projectRoot <|> options.projectRoot
    modulesDir := request.modulesDir.getD options.modulesDir
    resolveNested := request.nested || options.resolveNested }

/-- The resolved tree of the file and the events on the way. -/
def resolveFile
    (files : FileSystem) (request : Request) :
    Except Refusal (Node × List Event) := do
  let file ← absolute files request.file
  let base ← baseOf files request file
  let options ← optionsOf files request
  let tree ← (files.readTree file).mapError .failure
  let resolver : Resolver := ⟨base, options, none⟩
  match resolver.resolve files tree with
  | (.ok tree, journal) => return (tree, journal.events)
  | (.error failure, _) => throw (.failure failure)

def reportLine (event : Event) : String :=
  let status := match event with
    | .connected .. => "connected"
    | .notFound _ => "missing"
  status ++ " " ++ event.text ++ "\n"

def reportOf (request : Request) (events : List Event) : String :=
  if request.report then String.join (events.map reportLine) else ""

/-- A tree in an output format, with one line break at its end. -/
def render (format : OutputFormat) (tree : Node) : String :=
  let text := match format with
    | .json => tree.toJson.indentedText
    | .yaml => tree.toYaml.render
  Text.trimEnd text ++ "\n"

def refused (report : String) (refusal : Refusal) : Outcome :=
  ⟨1, "", report ++ "error: " ++ refusal.message ++ "\n"⟩

/-- Runs a command. The report stands before the error of a tree that makes no
routing table. -/
def runCommand
    (files : FileSystem) (command : Command) (request : Request) :
    Outcome :=
  match resolveFile files request with
  | .error refusal => refused "" refusal
  | .ok (tree, events) =>
    let report := reportOf request events
    match command with
    | .resolve => ⟨0, render request.format tree, report⟩
    | .routes =>
      match RoutingTable.bind tree with
      | .error fault => refused report (.failure (.ofFault fault))
      | .ok table => ⟨0, render request.format table.toNode, report⟩

def run (files : FileSystem) (arguments : List String) : Outcome :=
  match Arguments.read arguments with
  | .malformed => ⟨2, "", misuseText⟩
  | .help topic => ⟨0, topic.text, ""⟩
  | .version => ⟨0, versionText, ""⟩
  | .run command request => runCommand files command request

end ConfigTree.CommandLine
