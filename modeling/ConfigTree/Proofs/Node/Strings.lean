import ConfigTree.Resolver.Traversal

/-!
# The strings of a tree

A tree is gone through string by string; what becomes of it is known once it is
known what each string stands for.
-/

namespace ConfigTree.Node

mutual

/-- The strings of a tree with their key paths, in the order of the tree. -/
def strings (keyPath : KeyPath) : Node → List (KeyPath × String)
  | .string value => [(keyPath, value)]
  | .sequence items => stringsOfItems keyPath 0 items
  | .mapping entries => stringsOfEntries keyPath entries
  | _ => []

def stringsOfItems
    (keyPath : KeyPath) (index : Nat) :
    List Node → List (KeyPath × String)
  | [] => []
  | item :: rest =>
    strings (keyPath ++ [.position index]) item ++
      stringsOfItems keyPath (index + 1) rest

def stringsOfEntries
    (keyPath : KeyPath) :
    List (String × Node) → List (KeyPath × String)
  | [] => []
  | (key, value) :: rest =>
    strings (keyPath ++ [.key key]) value ++ stringsOfEntries keyPath rest

end

mutual

/-- The tree with a node in place of each string, and with numbered mappings
made sequences. -/
def substitute (meaning : String → Node) : Node → Node
  | .string value => meaning value
  | .sequence items => .sequence (substituteItems meaning items)
  | .mapping entries => ofEntries (substituteEntries meaning entries)
  | node => node

def substituteItems (meaning : String → Node) : List Node → List Node
  | [] => []
  | item :: rest => substitute meaning item :: substituteItems meaning rest

def substituteEntries
    (meaning : String → Node) :
    List (String × Node) → List (String × Node)
  | [] => []
  | (key, value) :: rest =>
      (key, substitute meaning value) :: substituteEntries meaning rest

end

end ConfigTree.Node
