import ConfigTree.Resolver.Basic

/-!
# Routing tables

A resolved routing tree maps the names of routes to their entries. The handler
of a route is what its controller holds under the route's action; it is added to
the entry.
-/

namespace ConfigTree

structure Route where
  name : String
  action : String
  handler : Node
  /-- The entry with the handler in it. -/
  entry : List (String × Node)
deriving Inhabited

/-- Routes in the order of the file, each name once. -/
structure RoutingTable where
  routes : List Route
deriving Inhabited

namespace Route

def controller? (route : Route) : Option Node :=
  route.entry.lookup "controller"

/-- The route that an entry describes. The action is looked at before the
controller. -/
def bind (name : String) (entry : Node) : Except RouteProblem Route :=
  match entry with
  | .mapping entries =>
    match entries.lookup "action" with
    | none => .error .noAction
    | some (.string action) =>
      match entries.lookup "controller" with
      | none => .error .noController
      | some (.mapping handlers) =>
        match handlers.lookup action with
        | none => .error (.unknownAction action)
        | some handler =>
            .ok ⟨name, action, handler, Node.setEntry "handler" handler entries⟩
      | some other => .error (.controllerNotMapping other.kind)
    | some other => .error (.actionNotString other.kind)
  | other => .error (.notMapping other.kind)

end Route

namespace RoutingTable

/-- The routes of entries, or the first one that is wrong. -/
def bindAll : List (String × Node) → Except Fault (List Route)
  | [] => .ok []
  | (name, entry) :: rest =>
    match Route.bind name entry with
    | .error problem => .error (.invalidRoute name problem)
    | .ok route =>
      match bindAll rest with
      | .error fault => .error fault
      | .ok routes => .ok (route :: routes)

/-- The table of a resolved routing tree. -/
def bind (tree : Node) : Except Fault RoutingTable :=
  match tree with
  | .mapping entries => (bindAll entries).map fun routes => ⟨routes⟩
  | other => .error (.invalidRoute "<root>" (.notRoutes other.kind))

def size (table : RoutingTable) : Nat :=
  table.routes.length

def get? (table : RoutingTable) (name : String) : Option Route :=
  table.routes.find? (·.name = name)

/-- The table as a tree: the entries with their handlers. -/
def toNode (table : RoutingTable) : Node :=
  .mapping (table.routes.map fun route => (route.name, .mapping route.entry))

end RoutingTable

/-- The table of a routing file in the resolver's directory. -/
def FileSystem.loadRouting
    (files : FileSystem) (resolver : Resolver) (name : String) :
    Except Failure RoutingTable :=
  match files.loadConfig resolver name with
  | .error failure => .error failure
  | .ok tree =>
    match RoutingTable.bind tree with
    | .error fault => .error (.ofFault fault)
    | .ok table => .ok table

end ConfigTree
