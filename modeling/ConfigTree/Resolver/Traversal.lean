import ConfigTree.Resolver.Journal

/-!
# Going through a tree

Every string of a tree is given to a handler, in the order of the tree; a
mapping keyed by the numbers from zero on becomes a sequence. The handler's
failures come out under the key path of the string.
-/

namespace ConfigTree

/-! ## Numbered mappings -/

namespace Node

/-- The values of a mapping that has the keys `0` to `n - 1` and no other, in
the order of these numbers. -/
def numbered? (entries : List (String × Node)) : Option (List Node) :=
  if entries.isEmpty then none
  else
    (List.range entries.length).mapM fun index =>
      entries.lookup (toString index)

/-- The node that resolved entries make: a sequence if they are numbered. -/
def ofEntries (entries : List (String × Node)) : Node :=
  match numbered? entries with
  | some items => .sequence items
  | none => .mapping entries

end Node

/-- Numbers below this fit a machine word. -/
def wordLimit : Nat := UInt64.size

/-- The number that digits go on to from another one, as long as it fits a
machine word. -/
def wordFrom? : Nat → List Char → Option Nat
  | value, [] => some value
  | value, c :: rest =>
    if c.isDigit then
      let next := 10 * value + (c.toNat - '0'.toNat)
      if next < wordLimit then wordFrom? next rest else none
    else none

/-- The number that a text writes, a plus sign before it or not, if it fits a
machine word. -/
def word? (text : String) : Option Nat :=
  match text.toList with
  | [] => none
  | ['+'] => none
  | '+' :: digits => wordFrom? 0 digits
  | digits => wordFrom? 0 digits

/-- The slots with the position of a key in the slot of its number. The key has
to be written as the number is, and the slot has to be there and empty. -/
def putKey? (slots : List (Option Nat)) (position : Nat) (key : String) :
    Option (List (Option Nat)) :=
  (word? key).bind fun index =>
    if toString index = key ∧ slots[index]? = some none then
      some (slots.set index (some position))
    else
      none

def putKeys? :
    List (Option Nat) → Nat → List String → Option (List (Option Nat))
  | slots, _, [] => some slots
  | slots, position, key :: rest =>
    (putKey? slots position key).bind fun slots =>
      putKeys? slots (position + 1) rest

/-- The positions of keys in the order of the numbers that they are; none if
there are other keys, or no keys. -/
def keyOrder? (keys : List String) : Option (List (Option Nat)) :=
  if keys.isEmpty then
    none
  else
    putKeys? (List.replicate keys.length none) 0 keys

/-- The values at positions, each of which is taken away as it is met. A value
that is not there any more is passed over; a position that there is not, or none
at all, leaves nothing. -/
def takeInOrder?
    {α : Type} :
    List (Option Nat) → List (Option α) → Option (List α)
  | [], _ => some []
  | slot :: rest, values =>
    match slot with
    | none => none
    | some position =>
      match values[position]? with
      | none => none
      | some none => takeInOrder? rest values
      | some (some value) =>
          (takeInOrder? rest (values.set position none)).map (value :: ·)

/-- The node that entries make, as one pass over their keys decides, if it is
one: the same node. -/
def Node.inOnePass? (entries : List (String × Node)) : Option Node :=
  match keyOrder? (entries.map Prod.fst) with
  | none => some (.mapping entries)
  | some order =>
      (takeInOrder? order (entries.map fun entry => some entry.2)).map .sequence

/-! ## Trees -/

namespace Node

mutual

/-- The node with every string handled and every numbered mapping made a
sequence. -/
def resolveWith
    (handle : String → Resolution Node) (keyPath : KeyPath) :
    Node → Resolution Node
  | .string value => Resolution.under keyPath (handle value)
  | .sequence items => do
    let items ← resolveItems handle keyPath 0 items
    return .sequence items
  | .mapping entries => do
    let entries ← resolveEntries handle keyPath entries
    return ofEntries entries
  | node => return node

def resolveItems
    (handle : String → Resolution Node) (keyPath : KeyPath) (index : Nat) :
    List Node → Resolution (List Node)
  | [] => return []
  | item :: rest => do
    let item ← resolveWith handle (keyPath ++ [.position index]) item
    let rest ← resolveItems handle keyPath (index + 1) rest
    return item :: rest

def resolveEntries (handle : String → Resolution Node) (keyPath : KeyPath) :
    List (String × Node) → Resolution (List (String × Node))
  | [] => return []
  | (key, value) :: rest => do
    let value ← resolveWith handle (keyPath ++ [.key key]) value
    let rest ← resolveEntries handle keyPath rest
    return (key, value) :: rest

end

end Node

end ConfigTree
