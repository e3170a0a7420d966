import ConfigTree.Proofs.Document.Neighbours
import ConfigTree.Proofs.Reference.Grammar
import ConfigTree.Proofs.Resolver.Modular
import ConfigTree.Proofs.Yaml.Mappings

/-!
# Including a neighbour and referring to it

In a nested run it makes no difference whether a file includes a neighbour or
refers to it: the resolved trees are equal, and the same is reported and
searched for, in the same order (`loadConfig_of_swaps`). The neighbour's name
must not be taken for a drive; then the include may be another file
(`loadConfig_of_drive_neighbour`).
-/

namespace ConfigTree

open Document (Swaps SwapsItems SwapsEntries fill fillItems fillEntries)

/-! ## Outcomes without key paths -/

private theorem Outcome.eq_of_ok
    {outcome : Outcome Node}
    {node : Node}
    (succeeded : outcome.result = .ok node) :
    outcome = ⟨.ok outcome.value, outcome.events, outcome.asked⟩ := by
  have own : outcome.value = node := by simp only [value, succeeded]
  rw [own, ← succeeded]

namespace Node

mutual

/-- The outcome of a tree whose strings have the given outcomes, with failures
put under no key path. -/
def bareOutcome (handled : String → Outcome Node) : Node → Outcome Node
  | .string value => handled value
  | .sequence items => (bareOutcomeOfItems handled items).map .sequence
  | .mapping entries => (bareOutcomeOfEntries handled entries).map ofEntries
  | node => .pure node

def bareOutcomeOfItems
    (handled : String → Outcome Node) :
    List Node → Outcome (List Node)
  | [] => .pure []
  | item :: rest =>
    (bareOutcome handled item).bind fun item =>
      (bareOutcomeOfItems handled rest).map (item :: ·)

def bareOutcomeOfEntries
    (handled : String → Outcome Node) :
    List (String × Node) → Outcome (List (String × Node))
  | [] => .pure []
  | (key, value) :: rest =>
    (bareOutcome handled value).bind fun value =>
      (bareOutcomeOfEntries handled rest).map ((key, value) :: ·)

end

variable {handled : String → Outcome Node}

/-- Each of the strings comes out. -/
def AllComeOut
    (handled : String → Outcome Node) (strings : List (KeyPath × String)) :
    Prop :=
  ∀ string ∈ strings, ∃ node, (handled string.2).result = .ok node

mutual

/-- A tree whose strings all come out has its strings replaced, and reports and
asks for what each of them does. -/
theorem bareOutcome_of_allComeOut :
    ∀ (keyPath : KeyPath) (tree : Node),
      AllComeOut handled (tree.strings keyPath) →
        tree.bareOutcome handled =
          ⟨.ok (tree.substitute fun value => (handled value).value),
            (tree.strings keyPath).flatMap fun string =>
              (handled string.2).events,
            (tree.strings keyPath).flatMap fun string =>
              (handled string.2).asked⟩
  | keyPath, .string value, all => by
      obtain ⟨node, ended⟩ := all (keyPath, value) (List.mem_singleton_self _)
      simpa only [bareOutcome, strings, substitute, List.flatMap_singleton]
        using Outcome.eq_of_ok ended
  | keyPath, .sequence items, all => by
      rw [bareOutcome, bareOutcomeOfItems_of_allComeOut keyPath 0 items all]
      rfl
  | keyPath, .mapping entries, all => by
      rw [bareOutcome, bareOutcomeOfEntries_of_allComeOut keyPath entries all]
      rfl
  | _, .null, _ => rfl
  | _, .bool _, _ => rfl
  | _, .number _, _ => rfl
  | _, .missingPackage _, _ => rfl

theorem bareOutcomeOfItems_of_allComeOut :
    ∀ (keyPath : KeyPath) (index : Nat) (items : List Node),
      AllComeOut handled (stringsOfItems keyPath index items) →
      bareOutcomeOfItems handled items =
        ⟨.ok (substituteItems (fun value => (handled value).value) items),
          (stringsOfItems keyPath index items).flatMap fun string =>
            (handled string.2).events,
          (stringsOfItems keyPath index items).flatMap fun string =>
            (handled string.2).asked⟩
  | _, _, [], _ => rfl
  | keyPath, index, item :: rest, all => by
      obtain ⟨here, later⟩ := List.forall_mem_append.mp all
      rw [bareOutcomeOfItems, bareOutcome_of_allComeOut _ item here,
        bareOutcomeOfItems_of_allComeOut keyPath (index + 1) rest later,
        stringsOfItems, List.flatMap_append,
        List.flatMap_append]
      rfl

theorem bareOutcomeOfEntries_of_allComeOut :
    ∀ (keyPath : KeyPath) (entries : List (String × Node)),
      AllComeOut handled (stringsOfEntries keyPath entries) →
        bareOutcomeOfEntries handled entries =
          ⟨.ok (substituteEntries (fun value => (handled value).value) entries),
            (stringsOfEntries keyPath entries).flatMap fun string =>
              (handled string.2).events,
            (stringsOfEntries keyPath entries).flatMap fun string =>
              (handled string.2).asked⟩
  | _, [], _ => rfl
  | keyPath, (key, value) :: rest, all => by
      obtain ⟨here, later⟩ := List.forall_mem_append.mp all
      rw [bareOutcomeOfEntries, bareOutcome_of_allComeOut _ value here,
        bareOutcomeOfEntries_of_allComeOut keyPath rest later, stringsOfEntries,
        List.flatMap_append,
        List.flatMap_append]
      rfl

end

/-- Key paths matter to failures only. -/
theorem outcome_eq_bareOutcome
    {keyPath : KeyPath}
    {tree node : Node}
    (ended : (tree.outcome handled keyPath).result = .ok node) :
    tree.outcome handled keyPath = tree.bareOutcome handled := by
  rw [outcome_of_ok ended,
    bareOutcome_of_allComeOut keyPath tree (forall_ok_of_outcome ended)]

/-! ## Trees of values that differ in such places -/

section Swapping

variable {near : String → Prop} {meaning : Yaml.Value → Yaml.Value}

/-- What each of the given names stands for as an include gives the outcome that
its reference has. -/
def OpensTo
    (handled : String → Outcome Node)
    (near : String → Prop)
    (meaning : Yaml.Value → Yaml.Value) :
    Prop :=
  ∀ name content, near name → ofYaml (meaning (.string name)) = .ok content →
    (∃ node, (handled ("./" ++ name)).result = .ok node) →
      handled ("./" ++ name) = content.bareOutcome handled

mutual

theorem bareOutcome_of_swaps
    (opens : OpensTo handled near meaning)
    {value other : Yaml.Value}
    (swaps : Swaps near value other)
    {keyPath : KeyPath}
    {tree otherTree : Node}
    (converted : ofYaml (fill meaning value) = .ok tree)
    (otherConverted : ofYaml (fill meaning other) = .ok otherTree)
    (all : AllComeOut handled (tree.strings keyPath))
    (otherAll : AllComeOut handled (otherTree.strings keyPath)) :
    tree.bareOutcome handled = otherTree.bareOutcome handled := by
  cases swaps with
  | same =>
      rw [converted] at otherConverted
      cases otherConverted
      rfl
  | @included name given =>
      cases converted
      exact opens name otherTree given otherConverted
        (all (keyPath, "./" ++ name) (List.mem_singleton_self _))
  | @referred name given =>
      cases otherConverted
      exact (opens name tree given converted
        (otherAll (keyPath, "./" ++ name) (List.mem_singleton_self _))).symm
  | tagged kept inner =>
      rw [fill, if_neg kept, ofYaml] at converted otherConverted
      exact
        bareOutcome_of_swaps opens inner converted otherConverted all otherAll
  | sequence inner =>
      rw [fill, ofYaml_sequence_eq_ok_iff] at converted otherConverted
      obtain ⟨nodes, convertedItems, rfl⟩ := converted
      obtain ⟨otherNodes, otherConvertedItems, rfl⟩ := otherConverted
      rw [bareOutcome, bareOutcome,
        bareOutcomeOfItems_of_swaps opens inner convertedItems
          otherConvertedItems all otherAll]
  | mapping inner =>
      rw [fill, ofYaml_mapping_eq_ok_iff] at converted otherConverted
      obtain ⟨pairs, convertedEntries, rfl⟩ := converted
      obtain ⟨otherPairs, otherConvertedEntries, rfl⟩ := otherConverted
      rw [bareOutcome, bareOutcome,
        bareOutcomeOfEntries_of_swaps opens inner convertedEntries
          otherConvertedEntries all otherAll]
termination_by sizeOf value

theorem bareOutcomeOfItems_of_swaps
    (opens : OpensTo handled near meaning)
    {items others : List Yaml.Value}
    (swaps : SwapsItems near items others)
    {keyPath : KeyPath} {index : Nat} {nodes otherNodes : List Node}
    (converted : ofYamlItems (fillItems meaning items) = .ok nodes)
    (otherConverted : ofYamlItems (fillItems meaning others) = .ok otherNodes)
    (all : AllComeOut handled (stringsOfItems keyPath index nodes))
    (otherAll : AllComeOut handled (stringsOfItems keyPath index otherNodes)) :
    bareOutcomeOfItems handled nodes =
      bareOutcomeOfItems handled otherNodes := by
  cases swaps with
  | nil =>
      cases converted
      cases otherConverted
      rfl
  | cons first later =>
      rw [fillItems, ofYamlItems_cons_eq_ok_iff] at converted otherConverted
      obtain ⟨node, rest, convertedHere, convertedLater, rfl⟩ := converted
      obtain ⟨otherNode, otherRest, otherConvertedHere, otherConvertedLater,
          rfl⟩ :=
        otherConverted
      obtain ⟨here, behind⟩ := List.forall_mem_append.mp all
      obtain ⟨otherHere, otherBehind⟩ := List.forall_mem_append.mp otherAll
      rw [bareOutcomeOfItems, bareOutcomeOfItems,
        bareOutcome_of_swaps opens first convertedHere otherConvertedHere here
          otherHere,
        bareOutcomeOfItems_of_swaps opens later convertedLater
          otherConvertedLater behind otherBehind]
termination_by sizeOf items

theorem bareOutcomeOfEntries_of_swaps
    (opens : OpensTo handled near meaning)
    {entries others : List (Yaml.Value × Yaml.Value)}
    (swaps : SwapsEntries near entries others)
    {before : List String}
    {keyPath : KeyPath}
    {pairs otherPairs : List (String × Node)}
    (converted : ofYamlEntries before (fillEntries meaning entries) = .ok pairs)
    (otherConverted :
      ofYamlEntries before (fillEntries meaning others) = .ok otherPairs)
    (all : AllComeOut handled (stringsOfEntries keyPath pairs))
    (otherAll : AllComeOut handled (stringsOfEntries keyPath otherPairs)) :
    bareOutcomeOfEntries handled pairs =
      bareOutcomeOfEntries handled otherPairs := by
  cases swaps with
  | nil =>
      cases converted
      cases otherConverted
      rfl
  | cons key first later =>
      rw [fillEntries, ofYamlEntries_cons_eq_ok_iff] at converted otherConverted
      obtain ⟨_, node, rest, convertedHere, convertedLater, rfl⟩ := converted
      obtain ⟨_, otherNode, otherRest, otherConvertedHere, otherConvertedLater,
          rfl⟩ :=
        otherConverted
      obtain ⟨here, behind⟩ := List.forall_mem_append.mp all
      obtain ⟨otherHere, otherBehind⟩ := List.forall_mem_append.mp otherAll
      rw [bareOutcomeOfEntries, bareOutcomeOfEntries,
        bareOutcome_of_swaps opens first convertedHere otherConvertedHere here
          otherHere,
        bareOutcomeOfEntries_of_swaps opens later convertedLater
          otherConvertedLater behind otherBehind]
termination_by sizeOf entries

end

end Swapping

end Node

/-! ## References to neighbours -/

namespace Setting

variable {setting : Setting} {known : String → Option String}
  {directory file : Path}

/-- A reference to a neighbour has the outcome of what an include of it stands
for: while the neighbour is being resolved, what comes out of its content is the
same as outside. -/
theorem opensTo_byItself
    (nested : setting.resolveNested = true)
    (above : file.parent? = some directory) :
    Node.OpensTo
      (stringOutcome known (setting.followOutcome known []) directory)
      (setting.files.IsNeighbour directory) (setting.files.byItself file) := by
  intro name content neighbour converted comesOut
  obtain ⟨node, ended⟩ := comesOut
  have read := neighbour.readTarget_eq above converted
  have found : setting.inspect (directory.join name) = .ok (content, true) :=
    inspect_eq_ok_true_iff.mpr ⟨neighbour.isFile, read, nested⟩
  have opened :
      stringOutcome known (setting.followOutcome known []) directory
          ("./" ++ name) =
        content.outcome
          (stringOutcome known
            (setting.followOutcome known [directory.join name]) directory)
          [] := by
    rw [stringOutcome, Reference.classify_of_relative]
    dsimp only
    rw [Path.join_dot_slash, followOutcome_eq, found]
    dsimp only
    rw [if_neg List.not_mem_nil, homeOf_of_parent neighbour.inside]
  rw [opened] at ended ⊢
  have outside := nodeOutcome_of_fewer ended fun _ _ endedInside =>
    followOutcome_of_fewer (fun _ member => absurd member List.not_mem_nil)
      endedInside
  rw [← outside] at ended ⊢
  exact Node.outcome_eq_bareOutcome ended

end Setting

/-! ## Loading -/

/-- From a base on the root, what a resolver does with any tree is a run of one
setting. -/
theorem Resolver.exists_run_of_resolve
    {files : FileSystem}
    {resolver : Resolver}
    {tree node : Node}
    (rooted : resolver.base.anchor ≠ .relative)
    (resolved : (resolver.resolve files tree).1 = .ok node) :
    ∃ source : PackageSource, ∀ other, resolver.resolve files other =
      Setting.run ⟨files, source.search files, resolver.options.resolveNested⟩
        .empty resolver.base other := by
  cases found : resolver.source files with
  | error fault => simp [resolve, found] at resolved
  | ok source =>
      refine ⟨source, fun other => ?_⟩
      rw [resolve, found]
      exact Setting.resolveWithCache_of_isAbsolute
        (Path.isAbsolute_iff.mpr (.inl rooted)) files source .empty other

namespace FileSystem

variable {files : FileSystem} {resolver : Resolver} {name : String}
  {node : Node}

private theorem exists_readTree_of_loadConfig
    (loaded : files.loadConfig resolver name = .ok node) :
    ∃ tree,
      files.readTree (resolver.base.join name) = .ok tree ∧
      (resolver.resolve files tree).1 = .ok node := by
  rw [loadConfig] at loaded
  cases read : files.readTree (resolver.base.join name) with
  | error failure =>
      rw [read] at loaded
      cases loaded
  | ok tree =>
      rw [read] at loaded
      exact ⟨tree, rfl, loaded⟩

/-- The tree of a YAML file is that of its value where each include is what the
included file gives by itself. -/
theorem ofYaml_of_readTree
    {path : Path}
    {value : Yaml.Value}
    {tree : Node}
    (read : files.readDocument path = .ok (.yaml value))
    (readTree : files.readTree path = .ok tree) :
    Node.ofYaml (Document.fill (files.byItself path) value) = .ok tree := by
  unfold FileSystem.readTree at readTree
  split at readTree
  · rename_i own composite readTarget
    obtain rfl := Except.ok.inj readTree
    obtain ⟨document, loaded, converted, _⟩ :=
      Setting.readTarget_eq_ok_iff.mp readTarget
    rw [load_eq_fill read loaded] at converted
    exact converted
  · cases readTree

/-- Two YAML files of a directory that differ only in that one includes
neighbours to which the other one refers: if both can be loaded in nested mode,
they come out as the same tree, and their runs search for the same packages and
report the same events in the same order. -/
theorem loadConfig_of_swaps
    {other : String} {value otherValue : Yaml.Value} {otherNode : Node}
    (rooted : resolver.base.anchor ≠ .relative)
    (nested : resolver.options.resolveNested = true)
    (above : (resolver.base.join name).parent? = some resolver.base)
    (otherAbove : (resolver.base.join other).parent? = some resolver.base)
    (read : files.readDocument (resolver.base.join name) = .ok (.yaml value))
    (otherRead :
      files.readDocument (resolver.base.join other) = .ok (.yaml otherValue))
    (swaps : Swaps (files.IsNeighbour resolver.base) value otherValue)
    (loaded : files.loadConfig resolver name = .ok node)
    (otherLoaded : files.loadConfig resolver other = .ok otherNode) :
    node = otherNode ∧ ∃ tree otherTree journal,
      files.readTree (resolver.base.join name) = .ok tree ∧
      files.readTree (resolver.base.join other) = .ok otherTree ∧
      resolver.resolve files tree = (.ok node, journal) ∧
      resolver.resolve files otherTree = (.ok node, journal) := by
  obtain ⟨tree, readTree, resolved⟩ := exists_readTree_of_loadConfig loaded
  obtain ⟨otherTree, otherReadTree, otherResolved⟩ :=
    exists_readTree_of_loadConfig otherLoaded
  obtain ⟨source, runs⟩ := Resolver.exists_run_of_resolve rooted resolved
  let setting : Setting :=
    ⟨files, source.search files, resolver.options.resolveNested⟩
  let handled :=
    Setting.stringOutcome (PackageCache.empty.answer setting.search)
      (setting.followOutcome (PackageCache.empty.answer setting.search) [])
      resolver.base
  have converted := ofYaml_of_readTree read readTree
  have otherConverted := ofYaml_of_readTree otherRead otherReadTree
  rw [byItself_of_parent (otherAbove.trans above.symm)] at otherConverted
  have ran :
      ∀ tree,
        resolver.resolve files tree =
          ((tree.outcome handled []).result,
            (Journal.start .empty).extend setting.search
              (tree.outcome handled []).events
              (tree.outcome handled []).asked) :=
    fun tree => (runs tree).trans
      (Setting.run_resolveIn setting [] resolver.base tree (.start .empty))
  have ended : (tree.outcome handled []).result = .ok node := by
    rwa [ran] at resolved
  have otherEnded : (otherTree.outcome handled []).result = .ok otherNode := by
    rwa [ran] at otherResolved
  have same : tree.outcome handled [] = otherTree.outcome handled [] := by
    rw [Node.outcome_eq_bareOutcome ended,
      Node.outcome_eq_bareOutcome otherEnded]
    exact Node.bareOutcome_of_swaps (Setting.opensTo_byItself nested above)
      swaps converted otherConverted (Node.forall_ok_of_outcome ended)
      (Node.forall_ok_of_outcome otherEnded)
  have sameNode : node = otherNode := by
    rw [same, otherEnded] at ended
    exact (Except.ok.inj ended).symm
  refine ⟨sameNode, tree, otherTree, _, readTree, otherReadTree,
    (ran tree).trans (by rw [ended]), ?_⟩
  rw [ran otherTree, ← same, ended]

/-! ## Two files and their neighbours -/

private theorem ofText?_plain
    {text : String}
    (tokens : Yaml.tokens? text = some [.scalar .plain text, .streamEnd])
    (plain : Yaml.Value.ofScalar none .plain text = some (.string text)) :
    Yaml.Value.ofText? text = some (.string text) := by
  have node :
      Yaml.Markup.ofText? text =
        some (some (.scalar none none .plain text)) := by
    rw [Yaml.Markup.ofText?, tokens]
    rfl
  exact Yaml.Value.ofText?_of_compose node (Yaml.Value.compose_string plain)

/-- A file that is nothing but an include is loaded with what is included. -/
theorem load_of_include
    {path : Path} {name : String} {document : Document}
    (read :
      files.readDocument path =
        .ok (.yaml (.tagged Document.includeTag (.string name))))
    (loaded : files.load (Document.includePath path name) = .ok document) :
    files.load path = .ok (.yaml document.toYaml) := by
  have own :
      Document.includes (.tagged Document.includeTag (.string name)) =
        [.string name] :=
    if_pos rfl
  refine (load_of_yaml read).mpr
    ⟨_, rfl, .expanded (fun _ => document.toYaml) read ?_ ?_⟩
  · rw [own]
    exact List.forall_mem_singleton.mpr ⟨name, rfl⟩
  · intro other member
    rw [own, List.mem_singleton] at member
    cases member
    exact stands_of_loadWithin List.not_mem_nil loaded

section Loading

variable {setting : Setting}

/-- A file that is nothing but an include of a JSON file is the tree of that
file. -/
theorem readTarget_of_include
    {path : Path} {inner : String} {content : Json.Value}
    (read : files.readDocument path =
      .ok (.yaml (.tagged Document.includeTag (.string inner))))
    (loaded :
      files.load (Document.includePath path inner) = .ok (.json content))
    (proper : content.IsProper) :
    Setting.readTarget files path =
      .ok (Node.ofJson content,
        Document.isYamlCollection (Document.yamlOfJson content)) :=
  Setting.readTarget_eq_ok_iff.mpr
    ⟨_, load_of_include read loaded, Node.ofYaml_yamlOfJson content proper, rfl⟩

/-- A file that is nothing but a reference comes out as what the file that it
opens holds does. -/
theorem loadConfig_of_reference
    {reference : String} {path : Path} {content : Node}
    (runs : ∀ tree, (resolver.resolve files tree).1 =
      setting.result .empty [] resolver.base tree)
    (read : files.readDocument (resolver.base.join name) =
      .ok (.yaml (.string reference)))
    (opens : setting.Opens .empty resolver.base reference path content) :
    files.loadConfig resolver name =
      (setting.result .empty [path] (Setting.homeOf path) content).mapError
        (·.under []) := by
  have whole : files.load (resolver.base.join name) =
      .ok (.yaml (.string reference)) :=
    (load_of_yaml read).mpr ⟨_, rfl, stands_of_no_includes read rfl⟩
  have readTarget : Setting.readTarget files (resolver.base.join name) =
      .ok (.string reference, false) :=
    Setting.readTarget_eq_ok_iff.mpr ⟨_, whole, rfl, rfl⟩
  rw [loadConfig_of_readTarget readTarget, runs,
    Setting.result_of_opens opens List.not_mem_nil]

end Loading

/-- In `/d` there are two YAML files of the given texts. The JSON file `f.json`
refers to an installed package and to one that is not there, and `a:b.json`
holds an empty sequence. The file `a:b.json` in the root, from where relative
paths start, holds a sequence of one. -/
def besides (reference inclusion : String) : FileSystem :=
  ⟨[("d", .directory [("a.yaml", .file reference.toUTF8),
      ("b.yaml", .file inclusion.toUTF8),
      ("f.json", .file
        "\x7b\"m\": \"[module] p\", \"n\": \"[module] q\"\x7d".toUTF8),
      ("a:b.json", .file "[]".toUTF8)]),
    ("a:b.json", .file "[null]".toUTF8)], []⟩

private theorem readDocument_besides
    {reference inclusion name text : String} {value : Yaml.Value}
    (parsed : Yaml.Value.ofText? text = some value)
    (listed : name = "a.yaml" ∧ text = reference ∨
      name = "b.yaml" ∧ text = inclusion) :
    (besides reference inclusion).readDocument ((Path.ofText "/d").join name) =
      .ok (.yaml value) := by
  have document : Document.ofText? .yaml text = some (.yaml value) := by
    rw [Document.ofText?, parsed]
    rfl
  rcases listed with ⟨rfl, rfl⟩ | ⟨rfl, rfl⟩
  · have joined :
        (Path.ofText "/d").join "a.yaml" = Path.ofText "/d/a.yaml" := by
      decide
    have held :
        (besides text inclusion).readText (Path.ofText "/d/a.yaml").text =
            .ok text :=
      readText_placeText ["a.yaml", "d"] rfl (by decide)
    rw [joined]
    exact readDocument_of_format held rfl document
  · have joined :
        (Path.ofText "/d").join "b.yaml" = Path.ofText "/d/b.yaml" := by
      decide
    have held :
        (besides reference text).readText (Path.ofText "/d/b.yaml").text =
            .ok text :=
      readText_placeText ["b.yaml", "d"] rfl (by decide)
    rw [joined]
    exact readDocument_of_format held rfl document

/-- Of the two packages, the list has one, which is the directory `/d`
itself. -/
def besidesResolver : Resolver :=
  ⟨Path.ofText "/d", nestedOptions, some [("p", "/d")]⟩

private theorem resolve_besidesResolver (files : FileSystem) (tree : Node) :
    besidesResolver.resolve files tree =
      (Setting.ofListed files [("p", "/d")]).run .empty (Path.ofText "/d")
        tree :=
  @Setting.resolveWithCache_of_isAbsolute besidesResolver (by decide) files
    (.listed [("p", "/d")]) .empty tree

/-- What the JSON file with the two references holds. -/
def twoPackages : Json.Value :=
  .object [("m", .string "[module] p"), ("n", .string "[module] q")]

/-- Wherever it stands, the content of that file comes out with the path of the
one package and a mark of the other one. -/
theorem outcome_twoPackages
    {reference inclusion : String} (resolving : List Path) (directory : Path) :
    let setting :=
      Setting.ofListed (besides reference inclusion) [("p", "/d")]
    setting.outcome (PackageCache.empty.answer setting.search) resolving
        directory (Node.ofJson twoPackages) =
      ⟨.ok (.mapping [("m", .string "/d"), ("n", .missingPackage "q")]),
        [.connected "p" (Path.ofText "/d"), .notFound "q"], ["p", "q"]⟩ := by
  intro setting
  have installed : Reference.classify "[module] p" =
      .ok (some (.package "p" "")) := by decide
  have missing : Reference.classify "[module] q" =
      .ok (some (.package "q" "")) := by decide
  have present : setting.files.find (Path.ofText "/d").text =
      .ok (.directory
        [("a.yaml", .file reference.toUTF8), ("b.yaml", .file inclusion.toUTF8),
          ("f.json", .file
            "\x7b\"m\": \"[module] p\", \"n\": \"[module] q\"\x7d".toUTF8),
          ("a:b.json", .file "[]".toUTF8)]) :=
    find_placeText ["d"] rfl rfl (by decide)
  have inspected :
      setting.inspect (Path.ofText "/d") = .ok (.string "/d", false) := by
    have text : (Path.ofText "/d").text = "/d" := by decide
    rw [Setting.inspect, kind, present, text]
  let handled :=
    Setting.stringOutcome (PackageCache.empty.answer setting.search)
      (setting.followOutcome (PackageCache.empty.answer setting.search)
        resolving) directory
  have first : handled "[module] p" =
      ⟨.ok (.string "/d"), [.connected "p" (Path.ofText "/d")], ["p"]⟩ := by
    have found : PackageCache.empty.answer setting.search "p" = some "/d" := rfl
    have joined : (Path.ofText "/d").join "" = Path.ofText "/d" := by decide
    dsimp only [handled]
    rw [Setting.stringOutcome_of_found installed found, joined,
      Setting.followOutcome_eq, inspected]
    rfl
  have second : handled "[module] q" =
      ⟨.ok (.missingPackage "q"), [.notFound "q"], ["q"]⟩ :=
    Setting.stringOutcome_of_missing missing rfl
  have strings : (Node.ofJson twoPackages).strings [] =
      [([.key "m"], "[module] p"), ([.key "n"], "[module] q")] := rfl
  have replaced :
      (Node.ofJson twoPackages).substitute
          (fun value => (handled value).value) =
        .mapping
          [("m", (handled "[module] p").value),
            ("n", (handled "[module] q").value)] := by
    have tree : Node.ofJson twoPackages =
        .mapping [("m", .string "[module] p"), ("n", .string "[module] q")] :=
          rfl
    simp only [tree, Node.substitute, Node.substituteEntries]
    rfl
  have all : ∀ string ∈ (Node.ofJson twoPackages).strings [],
      ∃ node, (handled string.2).result = .ok node := by
    rw [strings]
    simp [first, second]
  rw [Setting.outcome, Node.outcome, Outcome.through_of_forall_ok all, replaced,
    strings]
  simp [Outcome.map, Except.map, Outcome.value, first, second]

theorem loadConfig_of_swaps_besides :
    let files := besides "./f.json" "!include f.json"
    let value : Yaml.Value := .string "./f.json"
    let otherValue : Yaml.Value :=
      .tagged Document.includeTag (.string "f.json")
    let node : Node :=
      .mapping [("m", .string "/d"), ("n", .missingPackage "q")]
    besidesResolver.base.anchor ≠ .relative ∧
      besidesResolver.options.resolveNested = true ∧
      files.readDocument (besidesResolver.base.join "a.yaml") =
        .ok (.yaml value) ∧
      files.readDocument (besidesResolver.base.join "b.yaml") =
        .ok (.yaml otherValue) ∧
      Swaps (files.IsNeighbour besidesResolver.base) value otherValue ∧
      files.loadConfig besidesResolver "a.yaml" = .ok node ∧
      files.loadConfig besidesResolver "b.yaml" = .ok node ∧
      ∃ tree otherTree journal,
        files.readTree (besidesResolver.base.join "a.yaml") = .ok tree ∧
        files.readTree (besidesResolver.base.join "b.yaml") = .ok otherTree ∧
        besidesResolver.resolve files tree = (.ok node, journal) ∧
        besidesResolver.resolve files otherTree = (.ok node, journal) ∧
        journal.events = [.connected "p" (Path.ofText "/d"), .notFound "q"] ∧
        journal.cache.answers = [("q", none), ("p", some "/d")] := by
  intro files value otherValue node
  have rooted : besidesResolver.base.anchor ≠ .relative := by decide
  have joined :
      besidesResolver.base.join "f.json" = Path.ofText "/d/f.json" := by
    decide
  have read : files.readDocument (besidesResolver.base.join "a.yaml") =
      .ok (.yaml value) :=
    readDocument_besides (ofText?_plain (by decide +kernel) rfl)
      (.inl ⟨rfl, rfl⟩)
  have otherRead : files.readDocument (besidesResolver.base.join "b.yaml") =
      .ok (.yaml otherValue) :=
    readDocument_besides (ofText?_include (by decide +kernel) rfl)
      (.inr ⟨rfl, rfl⟩)
  have present : files.find (Path.ofText "/d/f.json").text =
      .ok (.file
          "\x7b\"m\": \"[module] p\", \"n\": \"[module] q\"\x7d".toUTF8) :=
    find_placeText ["f.json", "d"] rfl rfl (by decide)
  have said :
      Json.Syntax.ofText?
          "\x7b\"m\": \"[module] p\", \"n\": \"[module] q\"\x7d" =
        some (.object
          [("m".toList.map .char, .string ("[module] p".toList.map .char)),
            ("n".toList.map .char,
              .string ("[module] q".toList.map .char))]) := by
    cbv
  have parsed :
      Json.Value.ofText?
          "\x7b\"m\": \"[module] p\", \"n\": \"[module] q\"\x7d" =
        some twoPackages := by
    rw [Json.Value.ofText?, said]
    rfl
  have content :
      files.load (Path.ofText "/d/f.json") = .ok (.json twoPackages) :=
    load_of_json present rfl parsed
  have isFile :
      files.kind (besidesResolver.base.join "f.json").text = .ok .file := by
    rw [joined, kind, present]
  have near : files.load (besidesResolver.base.join "f.json") =
      .ok (.json twoPackages) := by
    rw [joined, content]
  have neighbour : files.IsNeighbour besidesResolver.base "f.json" :=
    isNeighbour_of_name rooted (by decide) (by decide) (by decide) (by decide)
      isFile near rfl (.inl rfl)
  have swaps :
      Swaps (files.IsNeighbour besidesResolver.base) value otherValue :=
    .included neighbour
  have target :
      Document.includePath (besidesResolver.base.join "b.yaml") "f.json" =
        Path.ofText "/d/f.json" := by decide
  have included :
      files.load
            (Document.includePath (besidesResolver.base.join "b.yaml")
              "f.json") = .ok (.json twoPackages) := by
    rw [target, content]
  have opens : (Setting.ofListed files [("p", "/d")]).Opens .empty
      besidesResolver.base "./f.json" (Path.ofText "/d/f.json")
      (Node.ofJson twoPackages) :=
    Setting.opens_of_json (by decide) present rfl parsed rfl rfl
  have runs : ∀ tree, (besidesResolver.resolve files tree).1 =
      (Setting.ofListed files [("p", "/d")]).result .empty []
          besidesResolver.base tree :=
    fun tree => congrArg Prod.fst (resolve_besidesResolver files tree)
  have targetRead := readTarget_of_include otherRead included
    ⟨by decide, trivial, trivial, trivial⟩
  have loaded : files.loadConfig besidesResolver "a.yaml" = .ok node := by
    rw [loadConfig_of_reference runs read opens, Setting.result_eq,
      outcome_twoPackages]
    rfl
  have otherLoaded : files.loadConfig besidesResolver "b.yaml" = .ok node := by
    rw [loadConfig_of_readTarget targetRead, runs, Setting.result_eq,
      outcome_twoPackages]
  obtain ⟨_, tree, otherTree, journal, readTree, otherReadTree, ran,
      otherRan⟩ :=
    loadConfig_of_swaps rooted rfl (by decide) (by decide) read otherRead swaps
      loaded otherLoaded
  have left :
      (Setting.ofListed files [("p", "/d")]).run .empty (Path.ofText "/d")
          (Node.ofJson twoPackages) = (.ok node, journal) := by
    rw [FileSystem.readTree, targetRead] at otherReadTree
    rw [← resolve_besidesResolver, Except.ok.inj otherReadTree, otherRan]
  have right := Setting.run_resolveIn (Setting.ofListed files [("p", "/d")]) []
    (Path.ofText "/d") (Node.ofJson twoPackages) (.start .empty)
  rw [Journal.start, outcome_twoPackages] at right
  obtain rfl := congrArg Prod.snd (left.symm.trans right)
  exact ⟨rooted, rfl, read, otherRead, swaps, loaded, otherLoaded, tree,
    otherTree, _, readTree, otherReadTree, ran, otherRan, rfl, rfl⟩

/-- The second byte of a name may be no colon and the file that it names may be
right in the directory: if the name is a drive once it is cleaned, a reference
to it gives what that file holds, and an include of it another file. -/
theorem loadConfig_of_drive_neighbour :
    let files := besides "././a:b.json" "!include ./a:b.json"
    let resolver := Resolver.ofText "/d" nestedOptions
    resolver.base.anchor ≠ .relative ∧
      "./a:b.json".toUTF8[1]? ≠ some ':'.toUInt8 ∧
      (resolver.base.join "./a:b.json").parent? = some resolver.base ∧
      files.kind (resolver.base.join "./a:b.json").text = .ok .file ∧
      files.load (resolver.base.join "./a:b.json") = .ok (.json (.array [])) ∧
      files.readDocument (resolver.base.join "a.yaml") =
        .ok (.yaml (.string ("./" ++ "./a:b.json"))) ∧
      files.readDocument (resolver.base.join "b.yaml") =
        .ok (.yaml (.tagged Document.includeTag (.string "./a:b.json"))) ∧
      files.loadConfig resolver "a.yaml" = .ok (.sequence []) ∧
      files.loadConfig resolver "b.yaml" = .ok (.sequence [.null]) := by
  intro files resolver
  have rooted : resolver.base.anchor ≠ .relative := by decide
  obtain ⟨modules, found⟩ :
      ∃ modules, nestedOptions.modulesRoot files = .ok modules :=
    ⟨_, rfl⟩
  have joined :
      resolver.base.join "./a:b.json" = Path.ofText "/d/a:b.json" := by
    decide
  have read :
      files.readDocument (resolver.base.join "a.yaml") =
        .ok (.yaml (.string "././a:b.json")) :=
    readDocument_besides (ofText?_plain (by decide +kernel) rfl)
      (.inl ⟨rfl, rfl⟩)
  have otherRead : files.readDocument (resolver.base.join "b.yaml") =
      .ok (.yaml (.tagged Document.includeTag (.string "./a:b.json"))) :=
    readDocument_besides (ofText?_include (by decide +kernel) rfl)
      (.inr ⟨rfl, rfl⟩)
  have present :
      files.find (Path.ofText "/d/a:b.json").text = .ok (.file "[]".toUTF8) :=
    find_placeText ["a:b.json", "d"] rfl rfl (by decide)
  have parsed : Json.Value.ofText? "[]" = some (.array []) := rfl
  have content :
      files.load (Path.ofText "/d/a:b.json") = .ok (.json (.array [])) :=
    load_of_json present rfl parsed
  have isFile :
      files.kind (resolver.base.join "./a:b.json").text = .ok .file := by
    rw [joined, kind, present]
  have located : files.locate "a:b.json" = .ok ["a:b.json"] := by
    have way : steps "a:b.json" = ["a:b.json"] := by decide
    rw [locate, if_neg (by decide), if_neg (by decide), if_neg (by decide), way]
    have entry : files.at? ["a:b.json"] = some (.file "[null]".toUTF8) := rfl
    exact walk_of_at? rfl linkLimit (by decide) entry
  have elsewhere :
      files.find (Path.ofText "a:b.json").text =
        .ok (.file "[null]".toUTF8) := by
    have text : (Path.ofText "a:b.json").text = "a:b.json" := by decide
    rw [text, find, located]
    rfl
  have parsedElsewhere :
      Json.Value.ofText? "[null]" = some (.array [.null]) := by
    rfl
  have contentElsewhere :
      files.load (Path.ofText "a:b.json") = .ok (.json (.array [.null])) :=
    load_of_json elsewhere rfl parsedElsewhere
  have target :
      Document.includePath (resolver.base.join "b.yaml") "./a:b.json" =
        Path.ofText "a:b.json" := by
    decide
  have included :
      files.load
          (Document.includePath (resolver.base.join "b.yaml") "./a:b.json") =
        .ok (.json (.array [.null])) := by
    rw [target, contentElsewhere]
  have opens : (Setting.nestedIn files modules).Opens .empty resolver.base
      "././a:b.json" (Path.ofText "/d/a:b.json") (Node.ofJson (.array [])) :=
    Setting.opens_json (by decide) (by decide) present rfl parsed rfl
  have runs : ∀ tree, (resolver.resolve files tree).1 =
      (Setting.nestedIn files modules).result .empty [] resolver.base tree :=
    fun tree =>
      congrArg Prod.fst (Resolver.resolve_of_rooted rooted rfl found tree)
  have targetRead := readTarget_of_include otherRead included ⟨trivial, trivial⟩
  have loaded : files.loadConfig resolver "a.yaml" = .ok (.sequence []) := by
    rw [loadConfig_of_reference runs read opens, Setting.result_eq]
    rfl
  have otherLoaded : files.loadConfig resolver "b.yaml" =
      .ok (.sequence [.null]) := by
    rw [loadConfig_of_readTarget targetRead, runs, Setting.result_eq]
    rfl
  exact ⟨rooted, by decide, by decide, isFile, joined ▸ content, read,
    otherRead, loaded, otherLoaded⟩

end FileSystem

end ConfigTree
