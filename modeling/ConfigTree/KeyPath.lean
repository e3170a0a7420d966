/-!
# Key paths

Where a value stands in a tree: the keys and positions that lead to it from the
root.
-/

namespace ConfigTree

inductive Segment where
  | key (name : String)
  | position (index : Nat)
deriving DecidableEq, Repr, Inhabited

/-- The segments from the root on. -/
abbrev KeyPath := List Segment

namespace KeyPath

def segmentText : Segment → String
  | .key name => "." ++ name
  | .position index => "[" ++ toString index ++ "]"

/-- Keys are joined by dots, positions stand in brackets; the root itself has a
text of its own. -/
def text : KeyPath → String
  | [] => "<root>"
  | .key name :: rest => name ++ String.join (rest.map segmentText)
  | segments => String.join (segments.map segmentText)

end KeyPath

end ConfigTree
