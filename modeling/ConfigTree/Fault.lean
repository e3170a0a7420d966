import ConfigTree.Document.Loading
import ConfigTree.KeyPath
import ConfigTree.Reference
import ConfigTree.Text.Quoted

/-!
# Faults

What can go wrong with a tree, and the failure that comes out: a cause under the
key paths that lead to it.
-/

namespace ConfigTree

/-- What is wrong with an entry of a routing tree, or with the whole of it. -/
inductive RouteProblem where
  | notRoutes (found : Node.Kind)
  | notMapping (found : Node.Kind)
  | actionNotString (found : Node.Kind)
  | noAction
  | unknownAction (action : String)
  | controllerNotMapping (found : Node.Kind)
  | noController
deriving DecidableEq, Repr, Inhabited

def RouteProblem.message : RouteProblem → String
  | .notRoutes found => "expected a mapping of routes, found " ++ found.name
  | .notMapping found => "expected a mapping, found " ++ found.name
  | .actionNotString found => "action must be a string, found " ++ found.name
  | .noAction => "missing action"
  | .unknownAction action => "controller has no action " ++ Text.quoted action
  | .controllerNotMapping found =>
      "controller must resolve to a mapping, found " ++ found.name
  | .noController => "missing controller"

inductive Fault where
  | malformedReference (value : String) (reason : Malformation)
  | duplicateKey (key : String)
  | unsupportedEntry (path : Path)
  | referenceCycle (path : Path)
  | invalidRoute (route : String) (problem : RouteProblem)
  | load (fault : LoadFault)
deriving DecidableEq

def Fault.message : Fault → String
  | .malformedReference value reason =>
      "Malformed package reference " ++ Text.quoted value ++ ": " ++
        reason.message
  | .duplicateKey key =>
      "Duplicate mapping key " ++ Text.quoted key ++
        " (keys differ only by YAML type)"
  | .unsupportedEntry path => "Unsupported filesystem entry at " ++ path.text
  | .referenceCycle path => "Reference cycle detected at " ++ path.text
  | .invalidRoute route problem =>
      "Invalid route " ++ Text.quoted route ++ ": " ++ problem.message
  | .load fault => fault.message

/-- A fault with the key paths that lead to it: the first one in the tree at
hand, each further one in a file that the value before it refers to. -/
structure Failure where
  keyPaths : List KeyPath
  cause : Fault
deriving DecidableEq

namespace Failure

def ofFault (cause : Fault) : Failure :=
  ⟨[], cause⟩

/-- The failure as one of the value at a key path. -/
def under (keyPath : KeyPath) (failure : Failure) : Failure :=
  { failure with keyPaths := keyPath :: failure.keyPaths }

def message (failure : Failure) : String :=
  String.join
      (failure.keyPaths.map fun keyPath => "at " ++ keyPath.text ++ ": ") ++
    failure.cause.message

end Failure

end ConfigTree
