/-!
# File systems

A tree of directories with files, links and devices at its leaves, and the
directory that relative paths start from.
-/

namespace ConfigTree

inductive Entry where
  | file (content : ByteArray)
  | directory (children : List (String × Entry))
  | link (target : String)
  | device
deriving Inhabited

def Entry.child? (name : String) : Entry → Option Entry
  | .directory children => children.lookup name
  | _ => none

def Entry.isDirectory : Entry → Bool
  | .directory _ => true
  | _ => false

/-- The names that lead from the root to an entry, innermost first. -/
abbrev Place := List String

structure FileSystem where
  root : List (String × Entry)
  current : Place
deriving Inhabited

namespace FileSystem

/-- The entry at a place, without following links. -/
def at? (files : FileSystem) : Place → Option Entry
  | [] => some (.directory files.root)
  | name :: above => (files.at? above).bind (·.child? name)

/-- The text of a place, from the root on. -/
def placeText (place : Place) : String :=
  "/" ++ "/".intercalate place.reverse

/-- The absolute text of the directory that relative paths start from. -/
def currentText (files : FileSystem) : String :=
  placeText files.current

/-! ## Changes -/

/-- Puts an entry in place of the one of the same name, or behind the others. -/
def setChild
    (name : String) (entry : Entry) :
    List (String × Entry) → List (String × Entry)
  | [] => [(name, entry)]
  | (other, old) :: rest =>
    if other = name then
      (name, entry) :: rest
    else
      (other, old) :: setChild name entry rest

/-- Puts an entry at the end of a way, given from the outside in. Directories
missing on the way are made. -/
def setAlong
    (entry : Entry) :
    List String → List (String × Entry) → List (String × Entry)
  | [], children => children
  | [name], children => setChild name entry children
  | name :: way, children =>
    let inner := match children.lookup name with
      | some (.directory inner) => inner
      | _ => []
    setChild name (.directory (setAlong entry way inner)) children

/-- Takes away the entry at the end of a way, given from the outside in. -/
def eraseAlong : List String → List (String × Entry) → List (String × Entry)
  | [], children => children
  | [name], children => children.filter fun child => child.1 ≠ name
  | name :: way, children =>
    match children.lookup name with
    | some (.directory inner) =>
        setChild name (.directory (eraseAlong way inner)) children
    | _ => children

def set (files : FileSystem) (place : Place) (entry : Entry) : FileSystem :=
  { files with root := setAlong entry place.reverse files.root }

def erase (files : FileSystem) (place : Place) : FileSystem :=
  { files with root := eraseAlong place.reverse files.root }

end FileSystem

end ConfigTree
