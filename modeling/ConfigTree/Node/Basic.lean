import ConfigTree.Number

/-!
# Trees

The tree that a configuration file holds, whatever format it is written in. A
mapping keeps its entries in order and has each key once. The mark of a missing
package appears only in resolved trees.
-/

namespace ConfigTree

inductive Node where
  | null
  | bool (value : Bool)
  | number (value : Number)
  | string (value : String)
  | sequence (items : List Node)
  | mapping (entries : List (String × Node))
  | missingPackage (name : String)
deriving Inhabited

/-- What kind of value a node is, in the words of messages. -/
inductive Node.Kind where
  | null
  | bool
  | number
  | string
  | sequence
  | mapping
  | missingPackage
deriving DecidableEq, Repr, Inhabited

def Node.Kind.name : Node.Kind → String
  | .null => "null"
  | .bool => "bool"
  | .number => "number"
  | .string => "string"
  | .sequence => "sequence"
  | .mapping => "mapping"
  | .missingPackage => "missing package"

namespace Node

def kind : Node → Kind
  | .null => .null
  | .bool _ => .bool
  | .number _ => .number
  | .string _ => .string
  | .sequence _ => .sequence
  | .mapping _ => .mapping
  | .missingPackage _ => .missingPackage

def isComposite : Node → Bool
  | .sequence _ | .mapping _ => true
  | _ => false

def isMissingPackage : Node → Bool
  | .missingPackage _ => true
  | _ => false

def string? : Node → Option String
  | .string value => some value
  | _ => none

def items? : Node → Option (List Node)
  | .sequence items => some items
  | _ => none

def entries? : Node → Option (List (String × Node))
  | .mapping entries => some entries
  | _ => none

/-- The value of a key, if the node is a mapping that has it. -/
def get? (node : Node) (key : String) : Option Node :=
  node.entries?.bind (·.lookup key)

/-- The entries with a key's value put in place of its old one, or at the
end. -/
def setEntry
    (key : String) (value : Node) :
    List (String × Node) → List (String × Node)
  | [] => [(key, value)]
  | (other, old) :: rest =>
    if other = key then
      (key, value) :: rest
    else
      (other, old) :: setEntry key value rest

end Node

end ConfigTree
