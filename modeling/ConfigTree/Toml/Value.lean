import ConfigTree.Toml.Syntax

/-!
# TOML values

Statements put together. A table is opened by a header of its own, by being on
the way of another header, or by a dotted key; which of these opened it decides
what may still be added to it. The members of a finished table are in ascending
order of their names.
-/

namespace ConfigTree.Toml

inductive Value where
  | string (value : String)
  | integer (value : Int)
  | real (value : Double)
  | bool (value : Bool)
  | datetime (value : Datetime)
  | array (items : List Value)
  | table (members : List (String × Value))
deriving Inhabited

/-! ## Tables under construction -/

/-- What opened a table. -/
inductive Origin where
  | header
  | onTheWay
  | dottedKey
deriving DecidableEq

inductive Item where
  | value (value : Value)
  | table (origin : Origin) (members : List (String × Item))
  | elements (tables : List (List (String × Item)))

abbrev Members := List (String × Item)

/-- Puts an item in place of the one of the same name, or at the end. -/
def Members.set (name : String) (item : Item) : Members → Members
  | [] => [(name, item)]
  | (other, old) :: rest =>
      if other = name then
        (name, item) :: rest
      else
        (other, old) :: Members.set name item rest

def Members.erase (name : String) (members : Members) : Members :=
  members.filter fun member => member.1 ≠ name

/-- Changes the table at the end of a path, opening the tables on the way. A
dotted key does not enter a table that has a header of its own; an array of
tables is entered at its last one. -/
def Members.within
    (dotted : Bool) (change : Origin → Members → Option Members) :
    Origin → List String → Members → Option Members
  | origin, [], members => change origin members
  | _, name :: path, members =>
    match members.lookup name with
    | none =>
      let opened := if dotted then Origin.dottedKey else .onTheWay
      (Members.within dotted change opened path []).map fun inner =>
        members ++ [(name, .table opened inner)]
    | some (.value _) => none
    | some (.table origin inner) =>
      if dotted && origin = .header then none
      else
        (Members.within dotted change origin path inner).map fun inner =>
          Members.set name (.table origin inner) members
    | some (.elements tables) =>
      match tables.reverse with
      | [] => none
      | last :: others =>
        (Members.within dotted change .header path last).map fun last =>
          Members.set name (.elements (last :: others).reverse) members

/-- Adds a key with its value. A dotted key adds only to a table that a dotted
key opened. -/
def Members.assign
    (path : List String) (value : Value) (members : Members) :
    Option Members :=
  match path.reverse with
  | [] => none
  | name :: way =>
    Members.within true (fun origin members =>
      if (way.isEmpty || origin = .dottedKey) &&
        (members.lookup name).isNone then
        some (members ++ [(name, .value value)])
      else none) .header way.reverse members

/-! ## Finished tables -/

/-- Inserts a member in order of names. -/
def insertMember
    (name : String) (value : Value) :
    List (String × Value) → List (String × Value)
  | [] => [(name, value)]
  | (other, old) :: rest =>
    if name < other then (name, value) :: (other, old) :: rest
    else (other, old) :: insertMember name value rest

def sortMembers (members : List (String × Value)) : List (String × Value) :=
  members.foldl (fun sorted member => insertMember member.1 member.2 sorted) []

mutual

def Item.finish : Item → Value
  | .value value => value
  | .table _ members => .table (sortMembers (finishMembers members))
  | .elements tables => .array (finishTables tables)

def finishMembers : List (String × Item) → List (String × Value)
  | [] => []
  | (name, item) :: rest => (name, item.finish) :: finishMembers rest

def finishTables : List (List (String × Item)) → List Value
  | [] => []
  | members :: rest =>
      .table (sortMembers (finishMembers members)) :: finishTables rest

end

mutual

/-- The value that a value's syntax stands for. -/
def ofSyntax : Syntax → Option Value
  | .string value => some (.string value)
  | .integer value => some (.integer value)
  | .real value => some (.real value)
  | .bool value => some (.bool value)
  | .datetime value => some (.datetime value)
  | .array items => (ofItems items).map .array
  | .inline members =>
      (ofMembers [] members).map fun members =>
        .table (sortMembers (finishMembers members))

def ofItems : List Syntax → Option (List Value)
  | [] => some []
  | item :: rest =>
    match ofSyntax item, ofItems rest with
    | some item, some rest => some (item :: rest)
    | _, _ => none

/-- The members of an inline table added to those before them. -/
def ofMembers (before : Members) : List (List String × Syntax) → Option Members
  | [] => some before
  | (path, value) :: rest =>
    match ofSyntax value with
    | none => none
    | some value =>
      match Members.assign path value before with
      | none => none
      | some members => ofMembers members rest

end

/-! ## Documents -/

/-- The document so far, and the table that keys are added to with the path it
belongs to. -/
structure Draft where
  root : Members
  current : Members
  path : List String
  isElement : Bool

/-- The document with the current table in its place. -/
def Draft.close (draft : Draft) : Option Members :=
  match draft.path.reverse with
  | [] => some draft.current
  | name :: way =>
    Members.within false (fun _ members =>
      if draft.isElement then
        match members.lookup name with
        | none => some (members ++ [(name, .elements [draft.current])])
        | some (.elements tables) =>
            some (Members.set name (.elements (tables ++ [draft.current]))
              members)
        | some _ => none
      else
        some (members ++ [(name, .table .header draft.current)])) .header
          way.reverse draft.root

/-- Starts a table. It may have been opened before on the way of another header,
and then keeps what it holds. -/
def Draft.openTable (root : Members) (path : List String) : Option Draft :=
  match path.reverse with
  | [] => none
  | name :: way => do
    let found : Option Members ← lookupWithin root way.reverse name
    let opened ←
      Members.within false (fun _ members => some (Members.erase name members))
        .header way.reverse root
    some ⟨opened, found.getD [], path, false⟩
where
  /-- The members of the table of that name, if the table may still get a
  header. -/
  lookupWithin (root : Members) (way : List String) (name : String) : Option
      (Option Members) :=
    match way, root with
    | [], members => match members.lookup name with
      | none => some none
      | some (.table .onTheWay inner) => some (some inner)
      | some _ => none
    | step :: way, members => match members.lookup step with
      | none => some none
      | some (.table _ inner) => lookupWithin inner way name
      | some (.elements tables) =>
          lookupWithin (tables.getLast?.getD []) way name
      | some (.value _) => none

/-- Starts one more element of an array of tables. -/
def Draft.openElement (root : Members) (path : List String) : Option Draft :=
  match path.reverse with
  | [] => none
  | name :: way =>
    (Members.within false (fun _ members =>
      match members.lookup name with
      | none => some (members ++ [(name, .elements [])])
      | some (.elements _) => some members
      | some _ =>
          none) .header way.reverse root).map fun root => ⟨root, [], path, true⟩

def Draft.add (draft : Draft) : Statement → Option Draft
  | .pair path value => do
    let value ← ofSyntax value
    let current ← Members.assign path value draft.current
    some { draft with current := current }
  | .table path => do Draft.openTable (← draft.close) path
  | .element path => do Draft.openElement (← draft.close) path

/-- The members of the table that a TOML text holds. -/
def tableOfText? (text : String) : Option (List (String × Value)) := do
  let statements ← statements? text
  let draft ← statements.foldlM Draft.add ⟨[], [], [], false⟩
  let root ← draft.close
  some (sortMembers (finishMembers root))

def Value.ofText? (text : String) : Option Value :=
  (tableOfText? text).map .table

end ConfigTree.Toml
