import ConfigTree.FileSystem.Basic
import ConfigTree.Path.Basic

/-!
# Looking paths up

A path's text is walked name by name. Links are followed wherever they stand,
and `..` leads to the directory that the walk has come to by then, so the same
text cleaned beforehand may lead elsewhere.
-/

namespace ConfigTree

/-- What keeps a path from being reached or read. -/
inductive Obstacle where
  | notFound
  | notDirectory
  | isDirectory
  | nameTooLong
  | tooManyLinks
  | notText
  | nulInPath
  | emptyPath
deriving DecidableEq, Repr, Inhabited

def Obstacle.message : Obstacle → String
  | .notFound => "No such file or directory (os error 2)"
  | .notDirectory => "Not a directory (os error 20)"
  | .isDirectory => "Is a directory (os error 21)"
  | .nameTooLong => "File name too long (os error 36)"
  | .tooManyLinks => "Too many levels of symbolic links (os error 40)"
  | .notText => "stream did not contain valid UTF-8"
  | .nulInPath => "file name contained an unexpected NUL byte"
  | .emptyPath => "cannot make an empty path absolute"

/-- What an entry is once links are followed. -/
inductive Kind where
  | file
  | directory
  | other
deriving DecidableEq, Repr, Inhabited

/-- A text with a further part behind it. A part that starts with a slash stands
alone. -/
def joinText (base part : String) : String :=
  if part.toList.head? = some '/' then part
  else if base = "" ∨ base.toList.getLast? = some '/' then base ++ part
  else base ++ "/" ++ part

namespace FileSystem

/-- A path's text has to be shorter than this, in bytes. -/
def pathLimit : Nat := 4096

/-- The longest name of an entry, in bytes. -/
def longestName : Nat := 255

/-- How many links one look-up follows. -/
def linkLimit : Nat := 40

/-- What stands between the slashes of a path's text. -/
def steps (text : String) : List String :=
  (text.toList.splitOn '/').map String.ofList

/-- Where the walk along a text starts. -/
def start (here : Place) (text : String) : Place :=
  if text.toList.head? = some '/' then [] else here

/-- The place that steps lead to, with so many links left to follow. -/
def walk
    (files : FileSystem) (links : Nat) (place : Place) :
    List String → Except Obstacle Place
  | [] => .ok place
  | step :: rest =>
    match files.at? place with
    | some (.directory _) =>
      if step = "" ∨ step = "." then files.walk links place rest
      else if step = ".." then files.walk links place.tail rest
      else if longestName < step.utf8ByteSize then .error .nameTooLong
      else
        match files.at? (step :: place) with
        | none => .error .notFound
        | some (.link target) =>
          match links with
          | 0 => .error .tooManyLinks
          | links + 1 =>
              files.walk links (start place target) (steps target ++ rest)
        | some _ => files.walk links (step :: place) rest
    | some _ => .error .notDirectory
    | none => .error .notFound
termination_by steps => (links, steps.length)

/-- The place that a path's text leads to, all links followed. -/
def locate (files : FileSystem) (text : String) : Except Obstacle Place :=
  if text.toList.contains '\x00' then .error .nulInPath
  else if text = "" then .error .notFound
  else if pathLimit ≤ text.utf8ByteSize then .error .nameTooLong
  else files.walk linkLimit (start files.current text) (steps text)

def find (files : FileSystem) (text : String) : Except Obstacle Entry :=
  match files.locate text with
  | .error obstacle => .error obstacle
  | .ok place =>
    match files.at? place with
    | some entry => .ok entry
    | none => .error .notFound

def kind (files : FileSystem) (text : String) : Except Obstacle Kind :=
  match files.find text with
  | .error obstacle => .error obstacle
  | .ok (.file _) => .ok .file
  | .ok (.directory _) => .ok .directory
  | .ok _ => .ok .other

def isDirectory (files : FileSystem) (text : String) : Bool :=
  match files.kind text with
  | .ok .directory => true
  | _ => false

def isFile (files : FileSystem) (text : String) : Bool :=
  match files.kind text with
  | .ok .file => true
  | _ => false

def hasEntry (files : FileSystem) (text : String) : Bool :=
  match files.kind text with
  | .ok _ => true
  | .error _ => false

/-- The text of a file. A device gives none. -/
def readText (files : FileSystem) (text : String) : Except Obstacle String :=
  match files.find text with
  | .error obstacle => .error obstacle
  | .ok (.directory _) => .error .isDirectory
  | .ok (.file content) =>
    match String.fromUTF8? content with
    | some content => .ok content
    | none => .error .notText
  | .ok _ => .ok ""

/-! ## Absolute paths -/

/-- The names between slashes, without empty ones and dots. -/
def namesOf (text : String) : List String :=
  (steps text).filter fun name => name ≠ "" && name ≠ "."

/-- What the names of a text stand behind when it is seen from the root. Exactly
two slashes at the start are kept. -/
def sightStart (files : FileSystem) (text : String) : String :=
  match (text.toList.takeWhile (· = '/')).length with
  | 0 => files.currentText
  | 2 => "//"
  | _ => "/"

/-- The text of a path from the root on. A slash at the end is kept. -/
def absoluteText (files : FileSystem) (text : String) : String :=
  let names := (namesOf text).foldl joinText (files.sightStart text)
  if text.toList.getLast? = some '/' then joinText names "" else names

/-- The cleaned path of a text, seen from the root. -/
def absolute (files : FileSystem) (text : String) : Except Obstacle Path :=
  if text = "" then
    .error .emptyPath
  else
    .ok (Path.ofText (files.absoluteText text))

/-! ## Changes by path -/

/-- The place of a new entry: links on the way are followed as far as the way
exists. -/
def placeFor (files : FileSystem) (place : Place) : List String → Place
  | [] => place
  | step :: rest =>
    match files.walk linkLimit place [step] with
    | .ok found => files.placeFor found rest
    | .error _ => files.placeFor (step :: place) rest

/-- Puts an entry at a path, with the directories on the way. A file's content
goes where links at the path lead; a directory that is there already keeps what
it holds. -/
def put (files : FileSystem) (text : String) (entry : Entry) : FileSystem :=
  let names := (steps text).filter (· ≠ "")
  match entry, names.reverse with
  | _, [] => files
  | .link target, name :: way =>
    files.set (name :: files.placeFor (start files.current text) way.reverse)
      (.link target)
  | entry, _ =>
    let place := files.placeFor (start files.current text) names
    match entry, files.at? place with
    | .directory [], some (.directory _) => files
    | entry, _ => files.set place entry

/-- Takes away what stands at a path, a link rather than what it leads to. -/
def remove (files : FileSystem) (text : String) : FileSystem :=
  match ((steps text).filter (· ≠ "")).reverse with
  | [] => files
  | name :: way =>
      files.erase
        (name :: files.placeFor (start files.current text) way.reverse)

end FileSystem

end ConfigTree
