import ConfigTree.Proofs.Keyed
import ConfigTree.Routing
import Mathlib.Data.List.Forall2

/-!
# Binding routes

A table is made of all entries of a routing tree or not at all. Main statement:
which trees are bound, what the table holds then, and which entry is named
otherwise (`bind_is_exact`).
-/

namespace ConfigTree

/-! ## Setting an entry -/

namespace Node

variable {key other : String} {value : Node}
  {entries others : List (String × Node)}

/-- What setting a key does to entries: the value takes the place of the old one
where the key stands first, and a key that is not there comes last. All other
entries are the same in the same places. -/
inductive SetsEntry
    (key : String) (value : Node) :
    List (String × Node) → List (String × Node) → Prop where
  | replaced
      {before after : List (String × Node)}
      {old : Node}
      (first : key ∉ before.map Prod.fst) :
      SetsEntry key value (before ++ (key, old) :: after)
        (before ++ (key, value) :: after)
  | added
      {entries : List (String × Node)} (fresh : key ∉ entries.map Prod.fst) :
      SetsEntry key value entries (entries ++ [(key, value)])

private theorem setEntry_append
    (absent : key ∉ entries.map Prod.fst) (rest : List (String × Node)) :
    setEntry key value (entries ++ rest) =
      entries ++ setEntry key value rest := by
  induction entries with
  | nil => simp only [List.nil_append]
  | cons entry later inductionHypothesis =>
      rw [List.map_cons, List.mem_cons, not_or] at absent
      have here : entry.1 ≠ key := Ne.symm absent.1
      rw [List.cons_append, List.cons_append, setEntry, if_neg here,
        inductionHypothesis absent.2]

private theorem setEntry_of_fresh (fresh : key ∉ entries.map Prod.fst) :
    setEntry key value entries = entries ++ [(key, value)] := by
  have whole :
      setEntry key value (entries ++ []) = entries ++ setEntry key value [] :=
    setEntry_append fresh []
  rw [List.append_nil] at whole
  rw [whole, setEntry]

private theorem setsEntry_iff :
    SetsEntry key value entries others ↔
      others = setEntry key value entries := by
  constructor
  · intro sets
    cases sets with
    | @replaced before after old first =>
        rw [setEntry_append first, setEntry, if_pos rfl]
    | added fresh => rw [setEntry_of_fresh fresh]
  · intro same
    subst same
    cases found : entries.lookup key with
    | none =>
        have fresh := Keyed.lookup_eq_none_iff.mp found
        rw [setEntry_of_fresh fresh]
        exact .added fresh
    | some old =>
        obtain ⟨before, after, split, differs⟩ :=
          List.lookup_eq_some_iff.mp found
        have first : key ∉ before.map Prod.fst := by
          intro member
          obtain ⟨entry, among, same⟩ := List.mem_map.mp member
          exact absurd same.symm (bne_iff_ne.mp (differs entry among))
        rw [split, setEntry_append first, setEntry, if_pos rfl]
        exact .replaced first

private theorem lookup_setEntry_of_ne (differs : other ≠ key) :
    (setEntry key value entries).lookup other = entries.lookup other := by
  have notKey : (other == key) = false := beq_eq_false_iff_ne.mpr differs
  induction entries with
  | nil => rw [setEntry, List.lookup_cons, notKey]
  | cons entry rest inductionHypothesis =>
      rw [setEntry]
      by_cases here : entry.1 = key
      · have notHere : (other == entry.1) = false := by rwa [here]
        rw [if_pos here, List.lookup_cons, List.lookup_cons, notHere, notKey]
      · rw [if_neg here, List.lookup_cons, List.lookup_cons,
          inductionHypothesis]

/-- Setting a key to the same value again changes nothing. -/
@[simp]
theorem setEntry_setEntry
    (key : String) (value : Node) (entries : List (String × Node)) :
    setEntry key value (setEntry key value entries) =
      setEntry key value entries := by
  induction entries with
  | nil => simp only [setEntry, if_pos]
  | cons entry rest inductionHypothesis =>
      rw [setEntry]
      by_cases here : entry.1 = key
      · rw [if_pos here, setEntry, if_pos rfl]
      · rw [if_neg here, setEntry, if_neg here, inductionHypothesis]

private theorem eq_mapping_of_entries?
    {node : Node} (isMapping : node.entries? = some entries) :
    node = .mapping entries := by
  cases node with
  | mapping own => cases isMapping; rfl
  | _ => cases isMapping

private theorem eq_string_of_string?
    {node : Node} {text : String} (isText : node.string? = some text) :
    node = .string text := by
  cases node with
  | string own => cases isText; rfl
  | _ => cases isText

end Node

/-! ## One route -/

namespace Route

variable {name : String} {entry : Node} {entries : List (String × Node)}
  {route : Route} {problem : RouteProblem}

/-- An entry that a route can be made of: a mapping with a text as its action,
and a mapping with the action as a key as its controller. -/
def IsBindable (entry : Node) : Prop :=
  ∃ action controller handler,
    entry.get? "action" = some (.string action) ∧
    entry.get? "controller" = some controller ∧
    controller.get? action = some handler

/-- The route that is made of an entry: the action is the entry's, the handler
is what the controller has under the action, and the handler is set in the
entry. -/
structure IsMadeOf (route : Route) (name : String) (entry : Node) : Prop where
  named : route.name = name
  action : entry.get? "action" = some (.string route.action)
  handler :
    ∃ controller,
      entry.get? "controller" = some controller ∧
      controller.get? route.action = some route.handler
  extended :
    ∃ entries,
      entry = .mapping entries ∧
      Node.SetsEntry "handler" route.handler entries route.entry

/-- What is wrong with an entry that no route can be made of. The action is
looked at before the controller. -/
inductive IsWrong : Node → RouteProblem → Prop where
  | notMapping
      {entry : Node} (other : entry.entries? = none) :
      IsWrong entry (.notMapping entry.kind)
  | noAction
      {entries : List (String × Node)}
      (missing : entries.lookup "action" = none) :
      IsWrong (.mapping entries) .noAction
  | actionNotString
      {entries : List (String × Node)}
      {found : Node}
      (action : entries.lookup "action" = some found)
      (other : found.string? = none) :
      IsWrong (.mapping entries) (.actionNotString found.kind)
  | noController {entries : List (String × Node)} {action : String}
      (isAction : entries.lookup "action" = some (.string action))
      (missing : entries.lookup "controller" = none) :
      IsWrong (.mapping entries) .noController
  | controllerNotMapping
      {entries : List (String × Node)}
      {action : String}
      {found : Node}
      (isAction : entries.lookup "action" = some (.string action))
      (controller : entries.lookup "controller" = some found)
      (other : found.entries? = none) :
      IsWrong (.mapping entries) (.controllerNotMapping found.kind)
  | unknownAction {entries handlers : List (String × Node)} {action : String}
      (isAction : entries.lookup "action" = some (.string action))
      (controller : entries.lookup "controller" = some (.mapping handlers))
      (missing : handlers.lookup action = none) :
      IsWrong (.mapping entries) (.unknownAction action)

private theorem bind_of_isWrong
    (wrong : IsWrong entry problem) :
    bind name entry = .error problem := by
  cases wrong with
  | notMapping other =>
      cases entry with
      | mapping entries => cases other
      | _ => rfl
  | noAction missing => simp only [bind, missing]
  | @actionNotString entries found action other =>
      cases found with
      | string text => cases other
      | _ => simp only [bind, action]
  | noController isAction missing => simp only [bind, isAction, missing]
  | @controllerNotMapping entries action found isAction controller other =>
      cases found with
      | mapping handlers => cases other
      | _ => simp only [bind, isAction, controller]
  | unknownAction isAction controller missing =>
      simp only [bind, isAction, controller, missing]

private theorem bind_of_isMadeOf
    (made : route.IsMadeOf name entry) :
    bind name entry = .ok route := by
  obtain ⟨entries, isMapping, sets⟩ := made.extended
  obtain ⟨controller, isController, handler⟩ := made.handler
  subst isMapping
  have action : entries.lookup "action" = some (.string route.action) :=
    made.action
  cases controller with
  | mapping handlers =>
      have controller :
          entries.lookup "controller" = some (.mapping handlers) :=
        isController
      have found : handlers.lookup route.action = some route.handler := handler
      simp only [bind, action, controller, found, ← made.named,
        ← Node.setsEntry_iff.mp sets]
  | _ => cases handler

/-- What one looks for in an entry is there, or something is wrong with the
entry. -/
theorem isBindable_or_isWrong
    (entry : Node) :
    IsBindable entry ∨ ∃ problem, IsWrong entry problem := by
  cases isMapping : entry.entries? with
  | none => exact Or.inr ⟨_, .notMapping isMapping⟩
  | some entries =>
      obtain rfl : entry = .mapping entries :=
        Node.eq_mapping_of_entries? isMapping
      cases action : entries.lookup "action" with
      | none => exact Or.inr ⟨_, .noAction action⟩
      | some found =>
          cases isText : found.string? with
          | none => exact Or.inr ⟨_, .actionNotString action isText⟩
          | some text =>
              obtain rfl : found = .string text :=
                Node.eq_string_of_string? isText
              cases controller : entries.lookup "controller" with
              | none => exact Or.inr ⟨_, .noController action controller⟩
              | some holder =>
                  cases hasHandlers : holder.entries? with
                  | none =>
                      exact Or.inr
                        ⟨_, .controllerNotMapping action controller hasHandlers⟩
                  | some handlers =>
                      obtain rfl : holder = .mapping handlers :=
                        Node.eq_mapping_of_entries? hasHandlers
                      cases handler : handlers.lookup text with
                      | none =>
                          exact
                            Or.inr ⟨_, .unknownAction action controller handler⟩
                      | some value =>
                          exact Or.inl
                            ⟨text, .mapping handlers, value, action, controller,
                              handler⟩

private theorem isBindable_iff
    (name : String) :
    IsBindable entry ↔ ∃ route : Route, route.IsMadeOf name entry := by
  constructor
  · intro bindable
    obtain ⟨action, controller, handler, isAction, isController, found⟩ :=
      bindable
    cases entry with
    | mapping entries =>
        refine ⟨⟨name, action, handler,
            Node.setEntry "handler" handler entries⟩, rfl, isAction, ?_, ?_⟩
        · exact ⟨controller, isController, found⟩
        · exact ⟨entries, rfl, Node.setsEntry_iff.mpr rfl⟩
    | _ => cases isAction
  · intro given
    obtain ⟨route, made⟩ := given
    obtain ⟨controller, isController, found⟩ := made.handler
    exact ⟨route.action, controller, route.handler, made.action, isController,
      found⟩

private theorem bind_eq_ok_iff :
    bind name entry = .ok route ↔ route.IsMadeOf name entry := by
  refine ⟨fun bound => ?_, bind_of_isMadeOf⟩
  rcases isBindable_or_isWrong entry with bindable | ⟨problem, wrong⟩
  · obtain ⟨other, made⟩ := (isBindable_iff name).mp bindable
    rw [bind_of_isMadeOf made] at bound
    cases bound
    exact made
  · rw [bind_of_isWrong wrong] at bound
    cases bound

private theorem not_isBindable_of_isWrong
    (wrong : IsWrong entry problem) :
    ¬IsBindable entry := by
  intro bindable
  obtain ⟨route, made⟩ := (isBindable_iff "").mp bindable
  have bound := bind_of_isMadeOf made
  rw [bind_of_isWrong wrong] at bound
  cases bound

/-- The entry of a route makes the same route again: setting the handler changes
neither the action nor the controller. -/
theorem bind_entry
    (bound : bind name entry = .ok route) :
    bind route.name (.mapping route.entry) = .ok route := by
  have made := bind_eq_ok_iff.mp bound
  obtain ⟨entries, isMapping, sets⟩ := made.extended
  have extended := Node.setsEntry_iff.mp sets
  subst isMapping
  have action :
      (Node.mapping route.entry).get? "action" =
        some (.string route.action) := by
    rw [extended]
    exact (Node.lookup_setEntry_of_ne (by decide)).trans made.action
  have handler :
      ∃ controller,
        (Node.mapping route.entry).get? "controller" = some controller ∧
        controller.get? route.action = some route.handler := by
    obtain ⟨controller, isController, found⟩ := made.handler
    refine ⟨controller, ?_, found⟩
    rw [extended]
    exact (Node.lookup_setEntry_of_ne (by decide)).trans isController
  apply bind_of_isMadeOf
  refine ⟨rfl, action, handler, route.entry, rfl, ?_⟩
  rw [Node.setsEntry_iff, extended, Node.setEntry_setEntry]

end Route

/-! ## Tables -/

namespace RoutingTable

/-- All entries are bound, each to the route that is made of it. -/
theorem bindAll_eq_ok_iff :
    ∀ {entries : List (String × Node)} {routes : List Route},
      bindAll entries = .ok routes ↔
        List.Forall₂ (fun entry route => Route.IsMadeOf route entry.1 entry.2)
          entries routes
  | [], routes => by
      rw [bindAll, List.forall₂_nil_left_iff, Except.ok.injEq]
      exact eq_comm
  | (name, entry) :: rest, routes => by
      constructor
      · intro bound
        rw [bindAll] at bound
        cases first : Route.bind name entry with
        | error problem =>
            rw [first] at bound
            cases bound
        | ok route =>
            cases later : bindAll rest with
            | error fault =>
                rw [first, later] at bound
                cases bound
            | ok others =>
                rw [first, later] at bound
                cases bound
                exact .cons (Route.bind_eq_ok_iff.mp first)
                  (bindAll_eq_ok_iff.mp later)
      · intro made
        cases made with
        | cons first later =>
            rw [bindAll, Route.bind_of_isMadeOf first]
            dsimp only
            rw [bindAll_eq_ok_iff.mpr later]

private theorem exists_bindAll :
    ∀ {entries : List (String × Node)},
      (∀ entry ∈ entries, Route.IsBindable entry.2) →
        ∃ routes, bindAll entries = .ok routes
  | [], _ => ⟨[], rfl⟩
  | (name, entry) :: rest, all => by
      obtain ⟨here, later⟩ := List.forall_mem_cons.mp all
      obtain ⟨route, made⟩ := (Route.isBindable_iff name).mp here
      obtain ⟨routes, bound⟩ := exists_bindAll later
      refine ⟨route :: routes, ?_⟩
      rw [bindAll, Route.bind_of_isMadeOf made]
      dsimp only
      rw [bound]

/-- The entries before the first wrong one are passed, and the ones behind it
are not looked at. -/
theorem bindAll_of_isWrong
    {name : String}
    {entry : Node}
    {problem : RouteProblem}
    (after : List (String × Node))
    (wrong : Route.IsWrong entry problem) :
    ∀ {before : List (String × Node)},
      (∀ earlier ∈ before, Route.IsBindable earlier.2) →
        bindAll (before ++ (name, entry) :: after) =
          .error (.invalidRoute name problem)
  | [], _ => by rw [List.nil_append, bindAll, Route.bind_of_isWrong wrong]
  | (other, first) :: rest, all => by
      obtain ⟨here, later⟩ := List.forall_mem_cons.mp all
      obtain ⟨route, made⟩ := (Route.isBindable_iff other).mp here
      rw [List.cons_append, bindAll, Route.bind_of_isMadeOf made]
      dsimp only
      rw [bindAll_of_isWrong after wrong later]

private theorem exists_first_wrong (entries : List (String × Node)) :
    (∀ entry ∈ entries, Route.IsBindable entry.2) ∨
      ∃ before name entry after problem,
        entries = before ++ (name, entry) :: after ∧
        (∀ earlier ∈ before, Route.IsBindable earlier.2) ∧
        Route.IsWrong entry problem := by
  induction entries with
  | nil => exact Or.inl (List.forall_mem_nil _)
  | cons first rest inductionHypothesis =>
      rcases Route.isBindable_or_isWrong first.2 with
        bindable | ⟨problem, wrong⟩
      · rcases inductionHypothesis with
          all | ⟨before, name, entry, after, problem, split, passed, wrong⟩
        · exact Or.inl (List.forall_mem_cons.mpr ⟨bindable, all⟩)
        · refine Or.inr
            ⟨first :: before, name, entry, after, problem, ?_, ?_, wrong⟩
          · rw [split, List.cons_append]
          · exact List.forall_mem_cons.mpr ⟨bindable, passed⟩
      · exact Or.inr
          ⟨[], first.1, first.2, rest, problem, rfl, List.forall_mem_nil _,
            wrong⟩

private theorem exists_bindAll_iff {entries : List (String × Node)} :
    (∃ routes, bindAll entries = .ok routes) ↔
      ∀ entry ∈ entries, Route.IsBindable entry.2 := by
  refine ⟨fun given => ?_, exists_bindAll⟩
  obtain ⟨routes, bound⟩ := given
  rcases exists_first_wrong entries with
    all | ⟨before, name, entry, after, problem, split, passed, wrong⟩
  · exact all
  · rw [split, bindAll_of_isWrong after wrong passed] at bound
    cases bound

/-- What is named is the first entry that is wrong. -/
theorem bindAll_eq_error_iff {entries : List (String × Node)} {fault : Fault} :
    bindAll entries = .error fault ↔
      ∃ before name entry after problem,
        entries = before ++ (name, entry) :: after ∧
        (∀ earlier ∈ before, Route.IsBindable earlier.2) ∧
        Route.IsWrong entry problem ∧ fault = .invalidRoute name problem := by
  constructor
  · intro failed
    rcases exists_first_wrong entries with
      all | ⟨before, name, entry, after, problem, split, passed, wrong⟩
    · obtain ⟨routes, bound⟩ := exists_bindAll all
      rw [bound] at failed
      cases failed
    · rw [split, bindAll_of_isWrong after wrong passed] at failed
      cases failed
      exact ⟨before, name, entry, after, problem, split, passed, wrong, rfl⟩
  · intro given
    obtain ⟨before, name, entry, after, problem, split, passed, wrong, same⟩ :=
      given
    rw [split, same, bindAll_of_isWrong after wrong passed]

/-- The entries of a table make the same routes again. -/
theorem bindAll_entries :
    ∀ {entries : List (String × Node)} {routes : List Route},
      bindAll entries = .ok routes →
        bindAll (routes.map fun route => (route.name, .mapping route.entry)) =
          .ok routes
  | entries, [], _ => rfl
  | entries, route :: routes, bound => by
      cases bindAll_eq_ok_iff.mp bound with
      | cons first later =>
          have here := Route.bind_entry (Route.bind_of_isMadeOf first)
          have rest := bindAll_entries (bindAll_eq_ok_iff.mpr later)
          rw [List.map_cons, bindAll, here]
          dsimp only
          rw [rest]

private theorem names_of_isMadeOf
    {entries : List (String × Node)} {routes : List Route}
    (made :
      List.Forall₂ (fun entry route => Route.IsMadeOf route entry.1 entry.2)
        entries routes) :
    routes.map (·.name) = entries.map Prod.fst := by
  induction made with
  | nil => rfl
  | cons first _ inductionHypothesis =>
      rw [List.map_cons, List.map_cons, first.named, inductionHypothesis]

section Tree

variable {tree : Node} {table : RoutingTable} {fault : Fault}

private theorem bind_of_other (other : tree.entries? = none) :
    bind tree = .error (.invalidRoute "<root>" (.notRoutes tree.kind)) := by
  cases tree with
  | mapping entries => cases other
  | _ => rfl

private theorem bind_eq_ok_iff :
    bind tree = .ok table ↔
      ∃ entries,
        tree = .mapping entries ∧ bindAll entries = .ok table.routes := by
  cases isMapping : tree.entries? with
  | none =>
      rw [bind_of_other isMapping]
      constructor
      · intro bound
        cases bound
      · intro given
        obtain ⟨entries, same, _⟩ := given
        rw [same] at isMapping
        cases isMapping
  | some entries =>
      obtain rfl : tree = .mapping entries :=
        Node.eq_mapping_of_entries? isMapping
      obtain ⟨routes⟩ := table
      cases bound : bindAll entries <;>
        simp [bind, bound, Except.map]

private theorem bind_eq_error_iff :
    bind tree = .error fault ↔
      (tree.entries? = none ∧
        fault = .invalidRoute "<root>" (.notRoutes tree.kind)) ∨
        ∃ entries,
          tree = .mapping entries ∧ bindAll entries = .error fault := by
  cases isMapping : tree.entries? with
  | none =>
      have different : ∀ entries, tree ≠ .mapping entries := by
        intro entries same
        rw [same] at isMapping
        cases isMapping
      rw [bind_of_other isMapping]
      simp [different, eq_comm]
  | some entries =>
      obtain rfl : tree = .mapping entries :=
        Node.eq_mapping_of_entries? isMapping
      cases bound : bindAll entries <;>
        simp [bind, bound, Except.map]

/-- A tree is bound exactly if it is a mapping of entries that routes can be
made of. The table then has one route for each entry in their order, with the
entry's name and action, with what the controller has under the action as its
handler, and with the entry in which nothing but the handler is set. Otherwise
the first entry that is wrong is named with what is wrong, or the root if the
tree is no mapping. The table is written as the mapping of the routes' entries,
which makes the same table again. -/
theorem bind_is_exact (tree : Node) :
    ((∃ table, bind tree = .ok table) ↔
      ∃ entries,
        tree = .mapping entries ∧ ∀ entry ∈ entries, Route.IsBindable entry.2) ∧
    (∀ table, bind tree = .ok table ↔ ∃ entries, tree = .mapping entries ∧
      List.Forall₂ (fun entry route => Route.IsMadeOf route entry.1 entry.2)
        entries table.routes) ∧
    (∀ fault, bind tree = .error fault ↔
      (tree.entries? = none ∧
        fault = .invalidRoute "<root>" (.notRoutes tree.kind)) ∨
        ∃ before name entry after problem,
          tree = .mapping (before ++ (name, entry) :: after) ∧
          (∀ earlier ∈ before, Route.IsBindable earlier.2) ∧
          ¬Route.IsBindable entry ∧ Route.IsWrong entry problem ∧
          fault = .invalidRoute name problem) ∧
    ∀ table, bind tree = .ok table →
      tree.entries?.map (·.map Prod.fst) = some (table.routes.map (·.name)) ∧
        bind
            (.mapping
              (table.routes.map fun route =>
                (route.name, .mapping route.entry))) = .ok table ∧
        table.toNode =
          .mapping
            (table.routes.map fun route =>
              (route.name, .mapping route.entry)) := by
  refine ⟨?_, fun table => ?_, fun fault => ?_, fun table bound => ?_⟩
  · simp only [bind_eq_ok_iff, ← exists_bindAll_iff]
    constructor
    · intro given
      obtain ⟨table, entries, isMapping, bound⟩ := given
      exact ⟨entries, isMapping, table.routes, bound⟩
    · intro given
      obtain ⟨entries, isMapping, routes, bound⟩ := given
      exact ⟨⟨routes⟩, entries, isMapping, bound⟩
  · simp only [bind_eq_ok_iff, bindAll_eq_ok_iff]
  · rw [bind_eq_error_iff]
    apply or_congr_right
    constructor
    · intro given
      obtain ⟨entries, isMapping, failed⟩ := given
      obtain ⟨before, name, entry, after, problem, split, passed, wrong,
          same⟩ :=
        bindAll_eq_error_iff.mp failed
      subst split
      exact ⟨before, name, entry, after, problem, isMapping, passed,
        Route.not_isBindable_of_isWrong wrong, wrong, same⟩
    · intro given
      obtain ⟨before, name, entry, after, problem, isMapping, passed, _, wrong,
          same⟩ :=
        given
      refine ⟨_, isMapping, ?_⟩
      rw [same, bindAll_of_isWrong after wrong passed]
  · obtain ⟨entries, isMapping, made⟩ := bind_eq_ok_iff.mp bound
    have names := names_of_isMadeOf (bindAll_eq_ok_iff.mp made)
    refine ⟨?_, bind_eq_ok_iff.mpr ⟨_, rfl, bindAll_entries made⟩, rfl⟩
    rw [isMapping, names]
    rfl

end Tree

end RoutingTable

end ConfigTree
