import ConfigTree.Proofs.Document.Alike
import ConfigTree.Proofs.Resolver.Coercion
import ConfigTree.Proofs.Resolver.Reached
import ConfigTree.Proofs.Resolver.Settled
import ConfigTree.Proofs.Yaml.Mappings
import ConfigTree.Routing
import Mathlib.Tactic.FinCases

/-!
# Routing files

A routing file whose entries are as they should be makes the table of its
routes, in the order of the file, unless the routes are named by the numbers
from zero on: the file is a sequence then, which is no table
(`loadRouting_of_written`).
-/

namespace ConfigTree

/-! ## Keys that are no numbers -/

/-- A key with a character that is no digit is no number. -/
theorem not_isNumbering_of_mem
    {keys : List String}
    {key : String}
    {c : Char}
    (member : key ∈ keys)
    (among : c ∈ key.toList)
    (noDigit : c.isDigit = false) : ¬IsNumbering keys := by
  rintro ⟨_, _, isKey⟩
  obtain ⟨index, _, rfl⟩ := (isKey key).mp member
  have written : (toString index).toList = Nat.toDigits 10 index :=
    Nat.toList_repr
  rw [written] at among
  rw [Nat.isDigit_of_mem_toDigits (by decide) (by decide) among] at noDigit
  cases noDigit

/-! ## Routes as written -/

/-- A route as a file has it: a mapping with an action and a reference to a
controller. -/
structure WrittenRoute where
  name : String
  /-- The entry as the file has it. -/
  value : Yaml.Value
  entry : List (String × Node)
  action : String
  /-- The reference to the controller. -/
  reference : String
  /-- What the controller holds. -/
  handlers : List (String × Node)
  handler : Node

namespace WrittenRoute

/-- The entry is a mapping with a literal action and a reference to a file, seen
from a directory, that holds a mapping with the action as a key; all other
strings of the entry are literals. -/
structure WellFormed
    (files : FileSystem) (base : Path) (route : WrittenRoute) : Prop where
  isMapping : Node.ofYaml route.value = .ok (.mapping route.entry)
  action : route.entry.lookup "action" = some (.string route.action)
  controller : route.entry.lookup "controller" = some (.string route.reference)
  isReference : Reference.classify route.reference =
    .ok (some (.relative route.reference))
  isFile : files.kind (base.join route.reference).text = .ok .file
  read : Setting.readTarget files (base.join route.reference) =
    .ok (.mapping route.handlers, true)
  handler : route.handlers.lookup route.action = some route.handler
  literals : ∀ key value, (key, value) ∈ route.entry → key ≠ "controller" →
    ∀ text,
      Node.Occurs (.string text) value → Reference.classify text = .ok none

/-- What the strings of the entry stand for: the reference for what the
controller holds, and any other for itself. -/
def meaning (route : WrittenRoute) (text : String) : Node :=
  if text = route.reference then .mapping route.handlers else .string text

/-- The entry with the controller in it. -/
def resolved (route : WrittenRoute) : List (String × Node) :=
  Node.substituteEntries route.meaning route.entry

/-- The route of the table. -/
def bound (route : WrittenRoute) : Route :=
  ⟨route.name, route.action, route.handler,
    Node.setEntry "handler" route.handler route.resolved⟩

variable {files : FileSystem} {base : Path} {route : WrittenRoute}

private theorem WellFormed.unique
    (wellFormed : route.WellFormed files base) :
    (Node.mapping route.entry).HasUniqueKeys :=
  Node.hasUniqueKeys_of_ofYaml wellFormed.isMapping

/-- A string of the entry is the reference or a literal. -/
theorem WellFormed.strings
    (wellFormed : route.WellFormed files base)
    {text : String}
    (occurs : Node.Occurs (.string text) (.mapping route.entry)) :
    text = route.reference ∨ Reference.classify text = .ok none := by
  cases occurs with
  | @entry _ key value member within =>
      by_cases isController : key = "controller"
      · subst isController
        have found := Keyed.lookup_of_mem wellFormed.unique.1 member
        cases wellFormed.controller.symm.trans found
        cases within
        exact .inl rfl
      · exact
          .inr (wellFormed.literals key value member isController text within)

/-- An action that stands for itself is not the reference. -/
theorem WellFormed.meaning_action (wellFormed : route.WellFormed files base) :
    route.meaning route.action = .string route.action := by
  apply if_neg
  intro same
  have literal :=
    wellFormed.literals _ _ (Keyed.mem_of_lookup wellFormed.action) (by decide)
      _ .here
  rw [same, wellFormed.isReference] at literal
  cases literal

/-- The entry stays a mapping, as its keys are no numbers. -/
theorem WellFormed.substitute_entry (wellFormed : route.WellFormed files base) :
    (Node.mapping route.entry).substitute route.meaning =
      .mapping route.resolved := by
  have isKey : "action" ∈ route.entry.map Prod.fst :=
    List.mem_map_of_mem (Keyed.mem_of_lookup wellFormed.action)
  apply Node.ofEntries_of_not_isNumbering
  · simpa using wellFormed.unique.1
  · have letter : 'a' ∈ "action".toList := by decide
    simpa using not_isNumbering_of_mem isKey letter (by decide)

/-- The entry with the controller in it is bound. -/
theorem WellFormed.bind (wellFormed : route.WellFormed files base) :
    Route.bind route.name (.mapping route.resolved) = .ok route.bound := by
  have action :
      route.resolved.lookup "action" = some (.string route.action) := by
    simp [resolved, wellFormed.action, Node.substitute,
      wellFormed.meaning_action]
  have controller :
      route.resolved.lookup "controller" = some (.mapping route.handlers) := by
    simp [resolved, wellFormed.controller, Node.substitute, meaning]
  simp only [Route.bind, action, controller, wellFormed.handler, bound]

end WrittenRoute

/-! ## What a file stands for -/

namespace Setting

variable {setting : Setting} {cache : PackageCache} {resolving : List Path}
  {directory : Path}

private theorem result_of_literal
    {value : String} (literal : Reference.classify value = .ok none) :
    setting.result cache resolving directory (.string value) =
      .ok (.string value) := by
  rw [result_string_eq_ok_iff, stringResult, stringOutcome, literal]
  rfl

/-- When references inside files stay, a relative reference stands for what its
file holds. -/
theorem result_of_file
    {value : String}
    {node : Node}
    {composite : Bool}
    (plain : setting.resolveNested = false)
    (isReference : Reference.classify value = .ok (some (.relative value)))
    (isFile : setting.files.kind (directory.join value).text = .ok .file)
    (read :
      readTarget setting.files (directory.join value) = .ok (node, composite)) :
    setting.result cache resolving directory (.string value) = .ok node := by
  have leads :
      targetOf (cache.answer setting.search) directory value =
        some (directory.join value) := by
    rw [targetOf, isReference]
  have found : setting.inspect (directory.join value) = .ok (node, false) := by
    simp only [inspect, isFile, read, plain, Bool.false_and]
  exact result_of_inspect leads found

/-- The strings of an entry stand for what they should. -/
theorem result_of_wellFormed
    {route : WrittenRoute}
    (plain : setting.resolveNested = false)
    (wellFormed : route.WellFormed setting.files directory)
    {text : String}
    (occurs : Node.Occurs (.string text) (.mapping route.entry)) :
    setting.result cache resolving directory (.string text) =
      .ok (route.meaning text) := by
  rcases wellFormed.strings occurs with rfl | literal
  · rw [result_of_file plain wellFormed.isReference wellFormed.isFile
        wellFormed.read, WrittenRoute.meaning, if_pos rfl]
  · have other : text ≠ route.reference := by
      rintro rfl
      rw [wellFormed.isReference] at literal
      cases literal
    rw [result_of_literal literal, WrittenRoute.meaning, if_neg other]

/-- A tree of well-formed entries comes out with the controllers in them. -/
theorem result_of_routes
    {routes : List WrittenRoute} (plain : setting.resolveNested = false)
    (each : ∀ route ∈ routes, route.WellFormed setting.files directory) :
    setting.result cache resolving directory
        (.mapping
          (routes.map fun route => (route.name, .mapping route.entry))) =
      .ok (Node.ofEntries
        (routes.map fun route => (route.name, .mapping route.resolved))) := by
  have ended :
      ∀ route ∈ routes,
        ∀ keyPath,
          ∀ string ∈ (Node.mapping route.entry).strings keyPath,
            setting.result cache resolving directory (.string string.2) =
              .ok (route.meaning string.2) := by
    intro route member keyPath string among
    exact result_of_wellFormed plain (each route member)
      ((Node.mem_strings_iff keyPath _).mp ⟨string.1, among⟩)
  have all :
      ∀ string ∈
          (Node.mapping
            (routes.map fun route =>
              (route.name, .mapping route.entry))).strings [],
        ∃ node,
          setting.result cache resolving directory (.string string.2) =
            .ok node := by
    intro string among
    rw [Node.strings, Node.stringsOfEntries_eq_flatMap, List.mem_flatMap]
      at among
    obtain ⟨entry, listed, within⟩ := among
    obtain ⟨route, member, rfl⟩ := List.mem_map.mp listed
    exact ⟨_, ended route member _ string within⟩
  rw [result_eq_ok_substitute all, Node.substitute,
    Node.substituteEntries_eq_map, List.map_map]
  congr 2
  apply List.map_congr_left
  intro route member
  have same :
      (Node.mapping route.entry).substitute
          (setting.meaningIn cache resolving directory) =
        (Node.mapping route.entry).substitute route.meaning :=
    Node.substitute_congr [] fun string among =>
      meaningIn_eq (ended route member [] string among)
  exact congrArg (Prod.mk route.name)
    (same.trans (each route member).substitute_entry)

end Setting

/-! ## Tables -/

/-- Entries that are all bound make a table of them in their order. -/
theorem RoutingTable.bindAll_of_wellFormed
    {files : FileSystem}
    {base : Path}
    {routes : List WrittenRoute}
    (each : ∀ route ∈ routes, route.WellFormed files base) :
    bindAll (routes.map fun route => (route.name, .mapping route.resolved)) =
      .ok (routes.map (·.bound)) := by
  induction routes with
  | nil => rfl
  | cons first rest inductionHypothesis =>
      obtain ⟨here, later⟩ := List.forall_mem_cons.mp each
      simp only [List.map_cons, bindAll, here.bind, inductionHypothesis later]

/-- The table of entries that are all bound, if their names are no numbers. -/
theorem RoutingTable.bind_of_wellFormed
    {files : FileSystem}
    {base : Path}
    {routes : List WrittenRoute}
    (distinct : (routes.map (·.name)).Nodup)
    (each : ∀ route ∈ routes, route.WellFormed files base) :
    bind
        (Node.ofEntries
          (routes.map fun route => (route.name, .mapping route.resolved))) =
      if IsNumbering (routes.map (·.name)) then
        .error (.invalidRoute "<root>" (.notRoutes .sequence))
      else .ok ⟨routes.map (·.bound)⟩ := by
  have keys :
      (routes.map fun route => (route.name, Node.mapping route.resolved)).map
          Prod.fst = routes.map (·.name) := by
    rw [List.map_map]
    rfl
  rw [← keys] at distinct ⊢
  by_cases numbering : IsNumbering
    ((routes.map fun route => (route.name, Node.mapping route.resolved)).map
      Prod.fst)
  · obtain ⟨items, _, same⟩ := Node.ofEntries_of_isNumbering distinct numbering
    rw [if_pos numbering, same]
    rfl
  · rw [if_neg numbering, Node.ofEntries_of_not_isNumbering distinct numbering,
      bind, bindAll_of_wellFormed each]
    rfl

/-- A YAML file of distinct names and well-formed entries is the tree of the
entries. -/
theorem readTarget_of_routes
    {files : FileSystem}
    {path base : Path}
    {routes : List WrittenRoute}
    (distinct : (routes.map (·.name)).Nodup)
    (each : ∀ route ∈ routes, route.WellFormed files base)
    (loaded :
      files.load path =
        .ok (.yaml
          (.mapping
            (routes.map fun route => (.string route.name, route.value))))) :
    Setting.readTarget files path =
      .ok (.mapping
          (routes.map fun route => (route.name, .mapping route.entry)),
        true) := by
  have converted :
      Node.ofYamlEntries []
          (routes.map fun route => (.string route.name, route.value)) =
        .ok (routes.map fun route => (route.name, .mapping route.entry)) :=
    Node.ofYamlEntries_map (fun route member => (each route member).isMapping)
      distinct fun _ _ => List.not_mem_nil
  apply Setting.readTarget_eq_ok_iff.mpr
  refine ⟨_, loaded, ?_, rfl⟩
  rw [Document.toNode, Node.ofYaml, converted]

section Files

variable {files : FileSystem} {directory file : String} {options : Options}
  {modules base : Path}
  {routes : List WrittenRoute}

/-- A routing file is resolved to its entries with the controllers in them. -/
theorem loadConfig_of_written
    (plain : options.resolveNested = false)
    (found : options.modulesRoot files = .ok modules)
    (seen : (Resolver.ofText directory options).absoluteBase files = .ok base)
    (loaded : files.load ((Path.ofText directory).join file) =
      .ok (.yaml
        (.mapping (routes.map fun route => (.string route.name, route.value)))))
    (distinct : (routes.map (·.name)).Nodup)
    (each : ∀ route ∈ routes, route.WellFormed files base) :
    files.loadConfig (Resolver.ofText directory options) file =
      .ok (Node.ofEntries
        (routes.map fun route => (route.name, .mapping route.resolved))) := by
  have read := readTarget_of_routes distinct each loaded
  have source :
      (Resolver.ofText directory options).source files =
        .ok (.modules modules) := by
    simp only [Resolver.ofText, Resolver.source, found, Except.map]
  have ended :
      Setting.result
          ⟨files, files.searchModules modules.text, options.resolveNested⟩
          .empty [] base
          (.mapping
            (routes.map fun route => (route.name, .mapping route.entry))) =
        .ok (Node.ofEntries
          (routes.map fun route => (route.name, .mapping route.resolved))) :=
    Setting.result_of_routes plain each
  rw [FileSystem.loadConfig_of_readTarget read, Resolver.resolve, source]
  dsimp only
  rw [Resolver.resolveWithCache, seen]
  exact ended

/-- In a plain run, a routing file of well-formed entries with distinct names
makes the table of its routes in the order of the file: each has its name and
action, what its controller holds under the action as its handler, and an entry
with the controller and the handler in it. Only if the names are the numbers
from zero on the tree becomes a sequence, which is refused as a table. -/
theorem loadRouting_of_written
    (plain : options.resolveNested = false)
    (found : options.modulesRoot files = .ok modules)
    (seen : (Resolver.ofText directory options).absoluteBase files = .ok base)
    (loaded : files.load ((Path.ofText directory).join file) =
      .ok (.yaml
        (.mapping (routes.map fun route => (.string route.name, route.value)))))
    (distinct : (routes.map (·.name)).Nodup)
    (each : ∀ route ∈ routes, route.WellFormed files base) :
    files.loadRouting (Resolver.ofText directory options) file =
      if IsNumbering (routes.map (·.name)) then
        .error (.ofFault (.invalidRoute "<root>" (.notRoutes .sequence)))
      else .ok ⟨routes.map (·.bound)⟩ := by
  rw [FileSystem.loadRouting,
    loadConfig_of_written plain found seen loaded distinct each]
  dsimp only
  rw [RoutingTable.bind_of_wellFormed distinct each]
  by_cases numbering : IsNumbering (routes.map (·.name))
  · rw [if_pos numbering, if_pos numbering]
  · rw [if_neg numbering, if_neg numbering]

end Files

/-! ## Two routes and one -/

/-- The directory `/r` holds a routing file of the given text, and a controller
with two actions. -/
def routesFile (text : String) : FileSystem :=
  ⟨[("r", .directory [("routes.yaml", .file text.toUTF8),
      ("c.json", .file "\x7b\"a\": null, \"b\": true\x7d".toUTF8)])], []⟩

/-- A route to an action of that controller. -/
def routeOf (name action : String) (handler : Node) : WrittenRoute where
  name := name
  value := .mapping
    [(.string "action", .string action),
      (.string "controller", .string "./c.json")]
  entry := [("action", .string action), ("controller", .string "./c.json")]
  action := action
  reference := "./c.json"
  handlers := [("a", .null), ("b", .bool true)]
  handler := handler

private theorem wellFormed_routeOf
    (text name : String) {action : String} {handler : Node}
    (literal : Reference.classify action = .ok none)
    (held :
      [("a", Node.null), ("b", .bool true)].lookup action = some handler) :
    (routeOf name action handler).WellFormed (routesFile text)
      (Path.ofText "/r") := by
  have present : (routesFile text).find (Path.ofText "/r/c.json").text =
      .ok (.file "\x7b\"a\": null, \"b\": true\x7d".toUTF8) :=
    FileSystem.find_placeText ["c.json", "r"] rfl rfl (by decide)
  have said : Json.Syntax.ofText? "\x7b\"a\": null, \"b\": true\x7d" =
      some (.object
        [("a".toList.map .char, .null),
          ("b".toList.map .char, .bool true)]) := by
    cbv
  have parsed : Json.Value.ofText? "\x7b\"a\": null, \"b\": true\x7d" =
      some (.object [("a", .null), ("b", .bool true)]) := by
    rw [Json.Value.ofText?, said]
    rfl
  have isReference : Reference.classify "./c.json" =
      .ok (some (.relative "./c.json")) := by decide
  have joined :
      (Path.ofText "/r").join "./c.json" = Path.ofText "/r/c.json" := by
    decide
  have opens :
      (Setting.nestedIn (routesFile text) (Path.ofText "/")).Opens .empty
        (Path.ofText "/r") "./c.json" (Path.ofText "/r/c.json")
        (.mapping [("a", .null), ("b", .bool true)]) :=
    Setting.opens_json isReference joined present rfl parsed rfl
  refine ⟨rfl, rfl, rfl, isReference, joined ▸ opens.isFile,
    joined ▸ opens.read, held, ?_⟩
  intro key value member other inner occurs
  simp only [routeOf, List.mem_cons, List.not_mem_nil, or_false] at member
  rcases member with same | same
  · cases same
    cases occurs
    exact literal
  · cases same
    exact absurd rfl other

/-- The markup of a routing file with routes to the actions of the
controller. -/
def routesMarkup
    (style : Yaml.Style) (routes : List WrittenRoute) :
    Yaml.Markup :=
  .mapping none none (routes.map fun route =>
    (.scalar none none style route.name,
      .mapping none none
        [(.scalar none none .plain "action",
            .scalar none none .plain route.action),
          (.scalar none none .plain "controller",
            .scalar none none .plain "./c.json")]))

private theorem compose_routesMarkup
    {style : Yaml.Style} {routes : List WrittenRoute}
    (meant : ∀ route ∈ routes,
      Yaml.Value.ofScalar none style route.name = some (.string route.name))
    (actions : ∀ route ∈ routes,
      Yaml.Value.ofScalar none .plain route.action =
        some (.string route.action))
    (each : ∀ route ∈ routes, route.value = .mapping
      [(.string "action", .string route.action),
        (.string "controller", .string "./c.json")])
    (distinct : (routes.map (·.name)).Nodup) :
    Yaml.Value.compose Yaml.Value.deepest (routesMarkup style routes) =
      pure (.mapping
        (routes.map fun route => (.string route.name, route.value))) := by
  refine Yaml.Value.compose_mapping_map
    (fun route member => Yaml.Value.compose_string (meant route member)) ?_
      distinct
  intro route member
  have scalars :
      ∀ pair ∈ [("action", route.action), ("controller", "./c.json")],
        Yaml.Value.ofScalar none .plain pair.1 = some (.string pair.1) ∧
          Yaml.Value.ofScalar none .plain pair.2 = some (.string pair.2) := by
    intro pair among
    simp only [List.mem_cons, List.not_mem_nil, or_false] at among
    rcases among with rfl | rfl
    · have key : Yaml.Value.ofScalar none .plain "action" =
          some (.string "action") := rfl
      exact ⟨key, actions route member⟩
    · have key : Yaml.Value.ofScalar none .plain "controller" =
          some (.string "controller") := rfl
      have reference : Yaml.Value.ofScalar none .plain "./c.json" =
          some (.string "./c.json") := rfl
      exact ⟨key, reference⟩
  have entry := @Yaml.Value.compose_mapping_map (String × String) 126
    (fun pair => .scalar none none .plain pair.1)
    (fun pair => .scalar none none .plain pair.2) Prod.fst
    (fun pair => .string pair.2)
    [("action", route.action), ("controller", "./c.json")]
    (fun pair among => Yaml.Value.compose_string (scalars pair among).1)
    (fun pair among => Yaml.Value.compose_string (scalars pair among).2)
      (by simp)
  rw [each route member]
  exact entry

private theorem load_routesFile
    {text : String} {value : Yaml.Value} {markup : Yaml.Markup}
    (parsed : Yaml.Markup.ofText? text = some (some markup))
    (composed : Yaml.Value.compose Yaml.Value.deepest markup = pure value)
    (nothing : Document.includes value = []) :
    (routesFile text).load ((Path.ofText "/r").join "routes.yaml") =
      .ok (.yaml value) := by
  have document : Document.ofText? .yaml text = some (.yaml value) := by
    rw [Document.ofText?, Yaml.Value.ofText?_of_compose parsed composed]
    rfl
  have joined : (Path.ofText "/r").join "routes.yaml" =
      Path.ofText "/r/routes.yaml" := by decide
  have held : (routesFile text).readText (Path.ofText "/r/routes.yaml").text =
      .ok text :=
    FileSystem.readText_placeText ["routes.yaml", "r"] rfl (by decide)
  have read := FileSystem.readDocument_of_format held rfl document
  rw [joined]
  apply (FileSystem.load_of_yaml read).mpr
  exact ⟨_, rfl, FileSystem.stands_of_no_includes read nothing⟩

/-- Two routes whose names stand in another order than the sorted one. -/
def webAndHome : List WrittenRoute :=
  [routeOf "web" "b" (.bool true), routeOf "home" "a" .null]

/-- The text of a routing file with these routes. -/
def webAndHomeText : String :=
  "web: \x7baction: b, controller: ./c.json\x7d\nhome: \x7baction: a, controller: ./c.json\x7d"

theorem loadRouting_of_written_webAndHome :
    let files := routesFile webAndHomeText
    Options.default.resolveNested = false ∧
      (Resolver.ofText "/r" .default).absoluteBase files =
        .ok (Path.ofText "/r") ∧
      (webAndHome.map (·.name)).Nodup ∧ ¬IsNumbering (webAndHome.map (·.name)) ∧
      (∀ route ∈ webAndHome, route.WellFormed files (Path.ofText "/r")) ∧
      files.loadRouting (Resolver.ofText "/r" .default) "routes.yaml" =
        .ok ⟨webAndHome.map (·.bound)⟩ := by
  intro files
  obtain ⟨modules, found⟩ :
      ∃ modules, Options.default.modulesRoot files = .ok modules :=
    ⟨_, rfl⟩
  have seen : (Resolver.ofText "/r" .default).absoluteBase files =
      .ok (Path.ofText "/r") := rfl
  have tokens : Yaml.tokens? webAndHomeText =
      some [.blockMapping, .key, .scalar .plain "web", .value, .flowMapping,
          .key, .scalar .plain "action", .value, .scalar .plain "b", .flowEntry,
          .key, .scalar .plain "controller", .value, .scalar .plain "./c.json",
          .flowMappingEnd, .key, .scalar .plain "home", .value, .flowMapping,
          .key, .scalar .plain "action", .value, .scalar .plain "a", .flowEntry,
          .key, .scalar .plain "controller", .value, .scalar .plain "./c.json",
          .flowMappingEnd, .blockEnd, .streamEnd] := by
        decide +kernel
  have parsed : Yaml.Markup.ofText? webAndHomeText =
      some (some (routesMarkup .plain webAndHome)) := by
    rw [Yaml.Markup.ofText?, tokens]
    rfl
  have distinct : (webAndHome.map (·.name)).Nodup := by decide
  have each :
      ∀ route ∈ webAndHome, route.WellFormed files (Path.ofText "/r") := by
    intro route member
    fin_cases member
    · exact wellFormed_routeOf _ "web" (by decide) rfl
    · exact wellFormed_routeOf _ "home" (by decide) rfl
  have names : ¬IsNumbering (webAndHome.map (·.name)) := by decide
  have composed :
      Yaml.Value.compose Yaml.Value.deepest (routesMarkup .plain webAndHome) =
        pure (.mapping
          (webAndHome.map fun route => (.string route.name, route.value))) := by
    refine compose_routesMarkup ?_ ?_ ?_ distinct
    all_goals
      intro route member
      fin_cases member <;> rfl
  have table := loadRouting_of_written rfl found seen
    (load_routesFile parsed composed rfl) distinct each
  rw [if_neg names] at table
  exact ⟨rfl, seen, distinct, names, each, table⟩

/-- A file with one well-formed route is refused when the route is called
`0`. -/
theorem loadRouting_of_numbered_name :
    let files := routesFile "\"0\": \x7baction: a, controller: ./c.json\x7d"
    let route := routeOf "0" "a" .null
    Options.default.resolveNested = false ∧
      files.load ((Path.ofText "/r").join "routes.yaml") =
        .ok (.yaml (.mapping [(.string "0", route.value)])) ∧
      route.WellFormed files (Path.ofText "/r") ∧
      files.loadRouting (Resolver.ofText "/r" .default) "routes.yaml" =
        .error (.ofFault (.invalidRoute "<root>" (.notRoutes .sequence))) := by
  intro files route
  obtain ⟨modules, found⟩ :
      ∃ modules, Options.default.modulesRoot files = .ok modules :=
    ⟨_, rfl⟩
  have tokens : Yaml.tokens? "\"0\": \x7baction: a, controller: ./c.json\x7d" =
      some [.blockMapping, .key, .scalar .doubleQuoted "0", .value,
          .flowMapping, .key, .scalar .plain "action", .value,
          .scalar .plain "a", .flowEntry, .key, .scalar .plain "controller",
          .value, .scalar .plain "./c.json", .flowMappingEnd, .blockEnd,
          .streamEnd] := by
        decide +kernel
  have parsed :
      Yaml.Markup.ofText? "\"0\": \x7baction: a, controller: ./c.json\x7d" =
        some (some (routesMarkup .doubleQuoted [route])) := by
    rw [Yaml.Markup.ofText?, tokens]
    rfl
  have composed :
      Yaml.Value.compose Yaml.Value.deepest
            (routesMarkup .doubleQuoted [route]) =
          pure (.mapping
            ([route].map fun route => (.string route.name, route.value))) := by
    have plain : Yaml.Value.ofScalar none .plain "a" = some (.string "a") := rfl
    refine compose_routesMarkup ?_ ?_ ?_ (by simp)
    · exact List.forall_mem_singleton.mpr rfl
    · exact List.forall_mem_singleton.mpr plain
    · exact List.forall_mem_singleton.mpr rfl
  have loaded := load_routesFile parsed composed rfl
  have wellFormed : route.WellFormed files (Path.ofText "/r") :=
    wellFormed_routeOf _ "0" (by decide) rfl
  have resolved := loadConfig_of_written rfl found rfl loaded (by simp)
    (List.forall_mem_singleton.mpr wellFormed)
  refine ⟨rfl, loaded, wellFormed, ?_⟩
  rw [FileSystem.loadRouting, resolved]
  rfl

end ConfigTree
