/-!
# Arguments of the command line

An option is given at most once. Its value follows as the next argument, or in
the same one behind an equals sign; behind a single letter it may follow at
once. Arguments are looked at from left to right, and the first one that is
wrong or asks for help decides.
-/

namespace ConfigTree.CommandLine

inductive OutputFormat where
  | json
  | yaml
deriving DecidableEq, Repr, Inhabited

inductive Command where
  | resolve
  | routes
deriving DecidableEq, Repr, Inhabited

/-- What a command is asked to do. -/
structure Request where
  file : String
  baseDir : Option String
  projectRoot : Option String
  modulesDir : Option String
  optionsFile : Option String
  format : OutputFormat
  nested : Bool
  report : Bool
deriving DecidableEq, Repr, Inhabited

/-- What help is asked for: about the program, or in short or at length about a
command. -/
inductive HelpTopic where
  | program
  | command (command : Command) (atLength : Bool)
deriving DecidableEq, Repr, Inhabited

/-- What the arguments come to. -/
inductive Arguments where
  | malformed
  | help (topic : HelpTopic)
  | version
  | run (command : Command) (request : Request)
deriving DecidableEq, Repr, Inhabited

/-! ## Options -/

inductive ValueOption where
  | baseDir
  | projectRoot
  | modulesDir
  | optionsFile
  | format
deriving DecidableEq, Repr

inductive Flag where
  | nested
  | report
  | verbose
  | help
deriving DecidableEq, Repr

/-- The long options that take a value. -/
def ValueOption.ofName? : String → Option ValueOption
  | "base-dir" => some .baseDir
  | "project-root" => some .projectRoot
  | "modules-dir" => some .modulesDir
  | "options" => some .optionsFile
  | "format" => some .format
  | _ => none

def Flag.ofName? : String → Option Flag
  | "nested" => some .nested
  | "report" => some .report
  | "verbose" => some .verbose
  | "help" => some .help
  | _ => none

/-- The arguments of a command taken up so far. -/
structure Draft where
  file : Option String
  baseDir : Option String
  projectRoot : Option String
  modulesDir : Option String
  optionsFile : Option String
  format : Option OutputFormat
  nested : Bool
  report : Bool
  verbose : Bool

namespace Draft

def blank : Draft :=
  ⟨none, none, none, none, none, none, false, false, false⟩

/-- The request, if a file is named. -/
def request? (draft : Draft) : Option Request :=
  draft.file.map fun file =>
    ⟨file, draft.baseDir, draft.projectRoot, draft.modulesDir,
      draft.optionsFile, draft.format.getD .json, draft.nested, draft.report⟩

/-- A value for something that is not given yet. A path is not empty. -/
def path? (old : Option String) (value : String) : Option (Option String) :=
  if old.isSome || value = "" then none else some (some value)

def setFile (value : String) (draft : Draft) : Option Draft :=
  (path? draft.file value).map fun file => { draft with file := file }

def setValue
    (option : ValueOption) (value : String) (draft : Draft) :
    Option Draft :=
  match option with
  | .baseDir =>
      (path? draft.baseDir value).map fun baseDir =>
        { draft with baseDir := baseDir }
  | .projectRoot =>
      (path? draft.projectRoot value).map fun projectRoot =>
        { draft with projectRoot := projectRoot }
  | .optionsFile =>
      (path? draft.optionsFile value).map fun optionsFile =>
        { draft with optionsFile := optionsFile }
  | .modulesDir =>
      if draft.modulesDir.isSome then
        none
      else
        some { draft with modulesDir := some value }
  | .format =>
    match draft.format, value with
    | none, "json" => some { draft with format := some .json }
    | none, "yaml" => some { draft with format := some .yaml }
    | _, _ => none

end Draft

/-! ## Reading a command's arguments -/

/-- What one argument comes to: an end, or a draft, perhaps with an option that
waits for its value. -/
inductive Taken where
  | malformed
  | help (atLength : Bool)
  | taken (draft : Draft) (waiting : Option ValueOption)

def Taken.ofDraft : Option Draft → Taken
  | some draft => .taken draft none
  | none => .malformed

def takeFlag (flag : Flag) (draft : Draft) : Taken :=
  match flag with
  | .help => .help true
  | .nested =>
      if draft.nested then
        .malformed
      else
        .taken { draft with nested := true } none
  | .report =>
      if draft.report then
        .malformed
      else
        .taken { draft with report := true } none
  | .verbose =>
      if draft.verbose then
        .malformed
      else
        .taken { draft with verbose := true } none

/-- A long option, with its dashes taken off. -/
def takeLong (text : List Char) (draft : Draft) : Taken :=
  let name := String.ofList (text.takeWhile (· ≠ '='))
  match text.dropWhile (· ≠ '=') with
  | [] =>
    match ValueOption.ofName? name, Flag.ofName? name with
    | some option, _ => .taken draft (some option)
    | none, some flag => takeFlag flag draft
    | none, none => .malformed
  | _ :: value =>
    match ValueOption.ofName? name with
    | some option => Taken.ofDraft (draft.setValue option (String.ofList value))
    | none => .malformed

/-- The letters behind a single dash. The letter of an option takes all that
follows for its value. -/
def takeLetters (draft : Draft) : List Char → Taken
  | [] => .taken draft none
  | 'h' :: _ => .help false
  | 'v' :: rest =>
      if draft.verbose then
        .malformed
      else
        takeLetters { draft with verbose := true } rest
  | 'f' :: [] => .taken draft (some .format)
  | 'f' :: '=' :: value =>
      Taken.ofDraft (draft.setValue .format (String.ofList value))
  | 'f' :: value => Taken.ofDraft (draft.setValue .format (String.ofList value))
  | _ => .malformed

def takeArgument (argument : String) (draft : Draft) : Taken :=
  match argument.toList with
  | '-' :: '-' :: name => takeLong name draft
  | '-' :: letter :: letters => takeLetters draft (letter :: letters)
  | _ => Taken.ofDraft (draft.setFile argument)

/-- Whether an argument is an option, or ends the options. A single dash is a
name. -/
def isOption (argument : String) : Bool :=
  match argument.toList with
  | '-' :: _ :: _ => true
  | _ => false

/-- The arguments of a command from some draft on, perhaps with an option that
waits for its value. -/
def readCommand
    (command : Command) (draft : Draft) :
    Option ValueOption → List String → Arguments
  | some _, [] => .malformed
  | none, [] =>
    match draft.request? with
    | some request => .run command request
    | none => .malformed
  | some option, value :: rest =>
    if isOption value then .malformed
    else
      match draft.setValue option value with
      | some draft => readCommand command draft none rest
      | none => .malformed
  | none, argument :: rest =>
    if argument = "--" then
      match rest.foldlM (fun draft file => draft.setFile file) draft with
      | none => .malformed
      | some draft =>
        match draft.request? with
        | some request => .run command request
        | none => .malformed
    else
      match takeArgument argument draft with
      | .malformed => .malformed
      | .help atLength => .help (.command command atLength)
      | .taken draft waiting => readCommand command draft waiting rest

/-! ## Reading the whole line -/

/-- What options before the command come to. -/
inductive Opening where
  | malformed
  | help
  | version
  | verbose

/-- The letters behind a single dash before the command. -/
def readLetters (verbose : Bool) : List Char → Opening
  | [] => if verbose then .verbose else .malformed
  | 'h' :: _ => .help
  | 'V' :: _ => .version
  | 'v' :: rest => if verbose then .malformed else readLetters true rest
  | _ => .malformed

def readOpening (verbose : Bool) (argument : String) : Opening :=
  match argument with
  | "--help" => .help
  | "--version" => .version
  | "--verbose" => if verbose then .malformed else .verbose
  | argument =>
    match argument.toList with
    | '-' :: letter :: letters => readLetters verbose (letter :: letters)
    | _ => .malformed

/-- What a request for help is about. -/
def readTopic : List String → Arguments
  | [] => .help .program
  | ["resolve"] => .help (.command .resolve true)
  | ["routes"] => .help (.command .routes true)
  | ["help"] => .help .program
  | _ => .malformed

/-- What the arguments come to, behind a flag that has been given or not. -/
def readFrom (verbose : Bool) : List String → Arguments
  | [] => .malformed
  | "resolve" :: rest => readCommand .resolve .blank none rest
  | "routes" :: rest => readCommand .routes .blank none rest
  | "help" :: rest => readTopic rest
  | argument :: rest =>
    match readOpening verbose argument with
    | .malformed => .malformed
    | .help => .help .program
    | .version => .version
    | .verbose => readFrom true rest

def Arguments.read (arguments : List String) : Arguments :=
  readFrom false arguments

end ConfigTree.CommandLine
