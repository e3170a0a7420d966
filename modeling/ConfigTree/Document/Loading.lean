import ConfigTree.Document.Basic
import ConfigTree.FileSystem.Lookup
import ConfigTree.Path.Room

/-!
# Loading documents

A YAML value tagged `include` stands for the document that it names, seen from
the directory of the file it is written in. Only what stands as a value is
replaced: keys and other tags stay as they are. A file cannot be included while
it is being put together itself. Main statement: a path that can be read has a
short text (`length_le_of_readDocument`), so includes come to an end.
-/

namespace ConfigTree

/-- Why a document cannot be loaded. -/
inductive LoadFault where
  | obstacle (path : String) (obstacle : Obstacle)
  | unreadable (format : Format) (path : Path)
  | unknownFormat (extension : String)
  | includeOfNoPath (path : Path)
  | includeCycle (path : Path)
deriving DecidableEq

/-- What is said of a text that its format does not allow. -/
def LoadFault.illFormed : String :=
  "the text is not well-formed"

def LoadFault.message : LoadFault → String
  | .obstacle path what => "I/O error at " ++ path ++ ": " ++ what.message
  | .unreadable format path =>
      "Failed to parse " ++ format.name ++ " document at " ++ path.text ++
        ": " ++ illFormed
  | .unknownFormat extension => "Unsupported config format: " ++ extension
  | .includeOfNoPath path =>
      "Invalid !include in " ++ path.text ++ ": !include expects a path string"
  | .includeCycle path => "Include cycle detected at " ++ path.text

namespace FileSystem

/-- The document at a path, with what it includes left out. -/
def readDocument
    (files : FileSystem) (path : Path) :
    Except LoadFault Document :=
  match files.readText path.text with
  | .error obstacle => .error (.obstacle path.text obstacle)
  | .ok content =>
    match Format.ofPath? path with
    | none => .ok (.text content)
    | some format =>
      match Document.ofText? format content with
      | some document => .ok document
      | none => .error (.unreadable format path)

/-! ## The length of readable paths -/

private theorem length_le_utf8ByteSize
    (text : String) :
    text.toList.length ≤ text.utf8ByteSize := by
  rw [← String.ofList_toList (s := text)]
  generalize text.toList = chars
  induction chars with
  | nil => simp
  | cons c rest step =>
    rw [String.toList_ofList] at *
    have atLeastOne : 1 ≤ c.utf8Size := Char.utf8Size_pos c
    have size :
        (String.ofList (c :: rest)).utf8ByteSize =
          c.utf8Size + (String.ofList rest).utf8ByteSize := by
      have apart :
          String.ofList (c :: rest) =
            String.singleton c ++ String.ofList rest := by
        apply String.toList_inj.mp
        simp [String.toList_append]
      rw [apart, String.utf8ByteSize_append, String.utf8ByteSize_singleton]
    rw [size, List.length_cons]
    omega

private theorem length_le_of_locate
    {files : FileSystem} {text : String} {place : Place}
    (found : files.locate text = .ok place) :
    text.toList.length ≤ pathLimit := by
  unfold locate at found
  split at found
  · simp at found
  · split at found
    · simp at found
    · split at found
      · simp at found
      · have := length_le_utf8ByteSize text
        omega

private theorem length_le_of_readText
    {files : FileSystem} {text content : String}
    (readable : files.readText text = .ok content) :
    text.toList.length ≤ pathLimit := by
  cases found : files.locate text with
  | ok place => exact length_le_of_locate found
  | error obstacle => simp [readText, find, found] at readable

theorem length_le_of_readDocument
    {files : FileSystem} {path : Path} {document : Document}
    (readable : files.readDocument path = .ok document) :
    path.text.toList.length ≤ pathLimit := by
  cases content : files.readText path.text with
  | ok content => exact length_le_of_readText content
  | error obstacle => simp [readDocument, content] at readable

end FileSystem

/-! ## Includes -/

namespace Document

/-- The name of the tag of an include. -/
def includeTag : String :=
  "include"

mutual

/-- The value with each included one in place of the value that names it. -/
def substitute
    (included : Yaml.Value → Except LoadFault Yaml.Value) :
    Yaml.Value → Except LoadFault Yaml.Value
  | .tagged tag value =>
    if tag = includeTag then included value
    else
      match substitute included value with
      | .error fault => .error fault
      | .ok value => .ok (.tagged tag value)
  | .sequence items =>
    match substituteItems included items with
    | .error fault => .error fault
    | .ok items => .ok (.sequence items)
  | .mapping entries =>
    match substituteEntries included entries with
    | .error fault => .error fault
    | .ok entries => .ok (.mapping entries)
  | value => .ok value

def substituteItems (included : Yaml.Value → Except LoadFault Yaml.Value) :
    List Yaml.Value → Except LoadFault (List Yaml.Value)
  | [] => .ok []
  | item :: rest =>
    match substitute included item with
    | .error fault => .error fault
    | .ok item =>
      match substituteItems included rest with
      | .error fault => .error fault
      | .ok rest => .ok (item :: rest)

def substituteEntries (included : Yaml.Value → Except LoadFault Yaml.Value) :
    List (Yaml.Value × Yaml.Value) →
      Except LoadFault (List (Yaml.Value × Yaml.Value))
  | [] => .ok []
  | (key, value) :: rest =>
    match substitute included value with
    | .error fault => .error fault
    | .ok value =>
      match substituteEntries included rest with
      | .error fault => .error fault
      | .ok rest => .ok ((key, value) :: rest)

end

/-- The path that a file means by a name: an absolute one itself, another one as
seen from the file's directory. -/
def includePath (file : Path) (name : String) : Path :=
  let named := Path.ofText name
  if named.isAbsolute then
    named
  else
    (file.parent?.getD (Path.ofAnchor .relative)).join name

end Document

namespace FileSystem

/-- The document at a path with what it includes. The files that include it
already are given, and the path is none of them. -/
def loadWithin
    (files : FileSystem)
    (including : List Path)
    (path : Path)
    (fresh : path ∉ including) :
    Except LoadFault Document :=
  match readable : files.readDocument path with
  | .ok (.yaml value) =>
    have := Path.room_cons_lt (length_le_of_readDocument readable) fresh
    let included : Yaml.Value → Except LoadFault Yaml.Value
      | .string name =>
        let target := Document.includePath path name
        if listed : target ∈ path :: including then
          .error (.includeCycle target)
        else
          (files.loadWithin (path :: including) target listed).map
            Document.toYaml
      | _ => .error (.includeOfNoPath path)
    (Document.substitute included value).map .yaml
  | other => other
termination_by Path.room pathLimit including
decreasing_by exact this

/-- The document at a path with what it includes. -/
def load (files : FileSystem) (path : Path) : Except LoadFault Document :=
  files.loadWithin [] path List.not_mem_nil

theorem length_le_of_load
    {files : FileSystem} {path : Path} {document : Document}
    (loaded : files.load path = .ok document) :
    path.text.toList.length ≤ pathLimit := by
  cases readable : files.readDocument path with
  | ok document => exact length_le_of_readDocument readable
  | error fault =>
    unfold load at loaded
    rw [loadWithin] at loaded
    split at loaded
    · rename_i again
      rw [readable] at again
      cases again
    · rw [readable] at loaded
      cases loaded

end FileSystem

end ConfigTree
