import ConfigTree.Proofs.Document.ByName
import ConfigTree.Proofs.Package.Rooted
import ConfigTree.Proofs.Resolver.Cycles
import ConfigTree.Proofs.Resolver.Reached

/-!
# Files by themselves

What comes out while files are being resolved comes out as well while fewer of
them are (`result_of_fewer`). So a reference to a file stands for what the file
gives when it is loaded by itself, whichever files have led to it
(`nested_value_eq_loadConfig`).
-/

namespace ConfigTree

namespace Setting

variable {setting : Setting} {cache : PackageCache}
  {known : String → Option String} {resolving fewer : List Path}
  {directory : Path}

/-! ## Fewer files that are being resolved -/

private theorem stringOutcome_of_fewer
    {followed other : Path → Outcome Node} {value : String} {node : Node}
    (ended : (stringOutcome known followed directory value).result = .ok node)
    (same :
      ∀ path found,
        (followed path).result = .ok found → other path = followed path) :
    stringOutcome known other directory value =
      stringOutcome known followed directory value := by
  unfold stringOutcome at ended ⊢
  rcases classified : Reference.classify value with
    reason | (_ | (text | ⟨name, subpath⟩))
  · rfl
  · rfl
  · rw [classified] at ended
    exact same _ node ended
  · rw [classified] at ended
    dsimp only at ended ⊢
    cases answer : known name with
    | none => rfl
    | some root =>
        rw [answer] at ended
        rw [packageOutcome, packageOutcome, same _ node ended]

theorem nodeOutcome_of_fewer
    {followed other : Path → Outcome Node} {tree node : Node}
    (ended :
      (tree.outcome (stringOutcome known followed directory) []).result =
        .ok node)
    (same :
      ∀ path found,
        (followed path).result = .ok found → other path = followed path) :
    tree.outcome (stringOutcome known other directory) [] =
      tree.outcome (stringOutcome known followed directory) [] := by
  apply Node.outcome_congr
  intro string member
  obtain ⟨found, endedString⟩ :=
    Node.forall_ok_of_outcome ended string (mem_of_mem_upTo member)
  exact stringOutcome_of_fewer endedString same

/-- A file that comes out is not being resolved, so it does not matter which
others are. -/
theorem followOutcome_of_fewer
    {resolving fewer : List Path}
    (within : ∀ path ∈ fewer, path ∈ resolving)
    {path : Path}
    {node : Node}
    (ended : (setting.followOutcome known resolving path).result = .ok node) :
    setting.followOutcome known fewer path =
      setting.followOutcome known resolving path := by
  rw [followOutcome_eq] at ended
  rw [followOutcome_eq, followOutcome_eq setting known resolving]
  rcases found : setting.inspect path with fault | ⟨content, _ | _⟩
  · rfl
  · rfl
  · rw [found] at ended
    dsimp only at ended ⊢
    by_cases entered : path ∈ resolving
    · rw [if_pos entered] at ended
      cases ended
    · rw [if_neg entered] at ended
      rw [if_neg entered, if_neg fun earlier => entered (within path earlier)]
      have shorter := Path.room_cons_lt (length_le_of_inspect found) entered
      have withinOpened : ∀ other ∈ path :: fewer, other ∈ path :: resolving :=
        fun _ member => List.cons_subset_cons path within member
      exact nodeOutcome_of_fewer ended fun _ _ endedInside =>
        followOutcome_of_fewer withinOpened endedInside
termination_by Path.room FileSystem.pathLimit resolving

theorem result_of_fewer
    (within : ∀ path ∈ fewer, path ∈ resolving) {tree node : Node}
    (ended : setting.result cache resolving directory tree = .ok node) :
    setting.result cache fewer directory tree = .ok node := by
  rw [result_eq] at ended ⊢
  have same :=
    nodeOutcome_of_fewer ended fun _ _ endedInside =>
      followOutcome_of_fewer within endedInside
  unfold outcome at ended ⊢
  rw [same, ended]

/-! ## What strings stand for -/

/-- The node that a string stands for while the given files are being resolved,
if it comes out. -/
def meaningIn
    (setting : Setting)
    (cache : PackageCache)
    (resolving : List Path)
    (directory : Path)
    (value : String) :
    Node :=
  match setting.result cache resolving directory (.string value) with
  | .ok node => node
  | .error _ => .null

theorem meaningIn_eq
    {value : String}
    {node : Node}
    (ended :
      setting.result cache resolving directory (.string value) = .ok node) :
    setting.meaningIn cache resolving directory value = node := by
  simp only [meaningIn, ended]

/-- A tree that comes out has in place of each string what the string stands
for. -/
theorem eq_substitute_of_result
    {tree node : Node}
    (ended : setting.result cache resolving directory tree = .ok node) :
    node = tree.substitute (setting.meaningIn cache resolving directory) := by
  rw [result_eq] at ended
  have whole := Node.outcome_of_ok ended
  have each : (fun value => (stringOutcome (cache.answer setting.search)
      (setting.followOutcome (cache.answer setting.search) resolving) directory
            value).value) = setting.meaningIn cache resolving directory := by
    funext value
    unfold Outcome.value meaningIn
    rw [result_string, stringResult]
    cases (stringOutcome (cache.answer setting.search)
      (setting.followOutcome (cache.answer setting.search) resolving) directory
        value).result with
    | error failure => rfl
    | ok found => rfl
  rw [each] at whole
  unfold outcome at ended
  rw [whole] at ended
  exact (Except.ok.inj ended).symm

theorem result_eq_ok_substitute
    {tree : Node}
    (all :
      ∀ string ∈ tree.strings [],
        ∃ node,
          setting.result cache resolving directory (.string string.2) =
            .ok node) :
    setting.result cache resolving directory tree =
      .ok (tree.substitute (setting.meaningIn cache resolving directory)) := by
  obtain ⟨node, ended⟩ := result_eq_ok_iff.mpr all
  rw [ended, eq_substitute_of_result ended]

/-- A sequence of one string comes out with what the string does. -/
theorem result_singleton
    {value : String}
    {node : Node}
    (ended :
      setting.result cache resolving directory (.string value) = .ok node) :
    setting.result cache resolving directory (.sequence [.string value]) =
      .ok (.sequence [node]) := by
  have all : ∀ string ∈ (Node.sequence [.string value]).strings [],
      ∃ found,
          setting.result cache resolving directory (.string string.2) =
            .ok found := by
    intro string member
    obtain rfl := List.mem_singleton.mp member
    exact ⟨node, ended⟩
  rw [result_eq_ok_substitute all, Node.substitute, Node.substituteItems,
    Node.substitute, Node.substituteItems, meaningIn_eq ended]

theorem result_inside_of_opens
    {value : String}
    {path : Path}
    {content node : Node}
    (opens : setting.Opens cache directory value path content)
    (ended :
      setting.result cache resolving directory (.string value) = .ok node) :
    path ∉ resolving ∧
      setting.result cache (path :: resolving) (homeOf path) content =
        .ok node := by
  by_cases entered : path ∈ resolving
  · rw [result_of_opens_again opens entered] at ended
    cases ended
  · rw [result_of_opens opens entered] at ended
    cases inner :
        setting.result cache (path :: resolving) (homeOf path) content with
    | error failure =>
        rw [inner] at ended
        cases ended
    | ok found =>
        rw [inner] at ended
        exact ⟨entered, congrArg Except.ok (Except.ok.inj ended)⟩

/-- Every string that a tree comes to comes out if the tree does. -/
theorem exists_result_of_reaches
    {tree node : Node} {deeper : List Path} {home : Path} {value : String}
    (reaches : setting.Reaches cache resolving directory tree deeper home value)
    (ended : setting.result cache resolving directory tree = .ok node) :
    ∃ found, setting.result cache deeper home (.string value) = .ok found := by
  induction reaches generalizing node with
  | here meets =>
      have all := result_eq_ok_iff.mp ⟨node, ended⟩
      obtain ⟨found, endedString⟩ := all _ meets.mem_strings
      exact ⟨found, endedString⟩
  | inside meets opens fresh _ inductionHypothesis =>
      have all := result_eq_ok_iff.mp ⟨node, ended⟩
      obtain ⟨found, endedString⟩ := all _ meets.mem_strings
      exact inductionHypothesis (result_inside_of_opens opens endedString).2

/-! ## Rooted paths -/

theorem rooted_of_targetOf
    {value : String} {path : Path} (rooted : directory.anchor ≠ .relative)
    (packages :
      ∀ name root,
        known name = some root → (Path.ofText root).anchor ≠ .relative)
    (leads : targetOf known directory value = some path) :
    path.anchor ≠ .relative := by
  unfold targetOf at leads
  split at leads
  · obtain rfl := Option.some.inj leads
    exact rooted
  · obtain ⟨root, found, rfl⟩ := Option.map_eq_some_iff.mp leads
    exact packages _ root found
  · cases leads

/-- A rooted path that is opened has a directory and a name. -/
theorem exists_parts_of_opens
    {value : String}
    {path : Path}
    {content : Node}
    (opens : setting.Opens cache directory value path content)
    (rooted : path.anchor ≠ .relative) :
    ∃ folder name,
      path.parent? = some folder ∧ path.fileName? = some name ∧
      folder.anchor ≠ .relative := by
  have named : path.trail ≠ [] := by
    intro empty
    have root : path = Path.ofAnchor path.anchor := Path.eq_of_parts rfl empty
    have isFile := opens.isFile
    rw [root, FileSystem.kind, FileSystem.find_ofAnchor rooted] at isFile
    cases isFile
  obtain ⟨folder, above⟩ := Path.exists_parent rooted named
  obtain ⟨name, last⟩ := Path.exists_fileName named
  exact ⟨folder, name, above, last, Path.rooted_of_parent above rooted⟩

theorem homeOf_of_parent
    {path folder : Path} (above : path.parent? = some folder) :
    homeOf path = folder := by
  rw [homeOf, above, Option.getD_some]

theorem rooted_of_reaches
    {tree : Node} {deeper : List Path} {home : Path} {value : String}
    (packages :
      ∀ name root,
        cache.answer setting.search name = some root →
          (Path.ofText root).anchor ≠ .relative)
    (reaches : setting.Reaches cache resolving directory tree deeper home value)
    (rooted : directory.anchor ≠ .relative) : home.anchor ≠ .relative := by
  induction reaches with
  | here meets => exact rooted
  | inside meets opens fresh _ inductionHypothesis =>
      have rootedPath := rooted_of_targetOf rooted packages opens.leads
      obtain ⟨folder, _, above, _, rootedFolder⟩ :=
        exists_parts_of_opens opens rootedPath
      apply inductionHypothesis
      rw [homeOf_of_parent above]
      exact rootedFolder

/-- A reference that a tree comes to and that opens a file stands for what the
file's content results in, also while no other file is being resolved. -/
theorem result_of_opened
    {tree node : Node}
    {deeper : List Path}
    {home path : Path}
    {value : String}
    {content : Node}
    (packages :
      ∀ name root,
        cache.answer setting.search name = some root →
          (Path.ofText root).anchor ≠ .relative)
    (rooted : directory.anchor ≠ .relative)
    (ended : setting.result cache resolving directory tree = .ok node)
    (reaches : setting.Reaches cache resolving directory tree deeper home value)
    (opens : setting.Opens cache home value path content) :
    path.anchor ≠ .relative ∧
      ∃ folder name inner,
        path.parent? = some folder ∧ path.fileName? = some name ∧
        folder.anchor ≠ .relative ∧
        setting.result cache deeper home (.string value) = .ok inner ∧
        setting.result cache (path :: deeper) folder content = .ok inner ∧
        setting.result cache [] folder content = .ok inner := by
  obtain ⟨inner, endedString⟩ := exists_result_of_reaches reaches ended
  obtain ⟨_, endedContent⟩ := result_inside_of_opens opens endedString
  have rootedHome := rooted_of_reaches packages reaches rooted
  have rootedPath := rooted_of_targetOf rootedHome packages opens.leads
  obtain ⟨folder, name, above, last, rootedFolder⟩ :=
    exists_parts_of_opens opens rootedPath
  rw [homeOf_of_parent above] at endedContent
  have alone :=
    result_of_fewer (fun _ member => absurd member List.not_mem_nil)
      endedContent
  exact ⟨rootedPath, folder, name, inner, above, last, rootedFolder,
    endedString, endedContent, alone⟩

private theorem readTarget_join_fileName
    {files : FileSystem}
    {path folder : Path}
    {name : String}
    {target : Node × Bool}
    (rooted : path.anchor ≠ .relative)
    (above : path.parent? = some folder) (last : path.fileName? = some name)
    (read : readTarget files path = .ok target) :
    readTarget files (folder.join name) = .ok target := by
  unfold readTarget at read ⊢
  cases loaded : files.load path with
  | error fault =>
      rw [loaded] at read
      cases read
  | ok document =>
      rw [loaded] at read
      rw [FileSystem.load_join_fileName rooted above last loaded]
      exact read

end Setting

/-! ## Loading files by themselves -/

/-- What references are resolved against, also inside files, with packages from
a modules directory. -/
def Setting.nestedIn (files : FileSystem) (modules : Path) : Setting :=
  ⟨files, files.searchModules modules.text, true⟩

@[simp]
theorem Setting.files_nestedIn
    (files : FileSystem) (modules : Path) :
    (Setting.nestedIn files modules).files = files :=
  rfl

@[simp]
theorem PackageCache.answer_empty
    (search : String → Option String) :
    PackageCache.empty.answer search = search :=
  rfl

theorem Resolver.resolve_of_rooted
    {files : FileSystem}
    {base : Path}
    {options : Options}
    {modules : Path}
    (rooted : base.anchor ≠ .relative)
    (nested : options.resolveNested = true)
    (found : options.modulesRoot files = .ok modules)
    (tree : Node) :
    (Resolver.mk base options none).resolve files tree =
      (Setting.nestedIn files modules).run .empty base tree := by
  have source :
      (Resolver.mk base options none).source files =
        .ok (.modules modules) := by
    simp only [Resolver.source, found, Except.map]
  have absolute : base.isAbsolute = true :=
    Path.isAbsolute_iff.mpr (Or.inl rooted)
  rw [Resolver.resolve, source]
  dsimp only
  rw [Setting.resolveWithCache_of_isAbsolute absolute, nested]
  rfl

theorem Resolver.exists_modulesRoot_of_resolve
    {files : FileSystem} {base : String} {options : Options} {tree node : Node}
    (resolved :
      ((Resolver.ofText base options).resolve files tree).1 = .ok node) :
    ∃ modules, options.modulesRoot files = .ok modules := by
  cases found : options.modulesRoot files with
  | ok modules => exact ⟨modules, rfl⟩
  | error fault =>
      simp [Resolver.resolve, Resolver.ofText, Resolver.source, found,
        Except.map] at resolved

namespace FileSystem

theorem loadConfig_of_readTarget
    {files : FileSystem}
    {resolver : Resolver}
    {name : String}
    {content : Node}
    {composite : Bool}
    (read :
      Setting.readTarget files (resolver.base.join name) =
        .ok (content, composite)) :
    files.loadConfig resolver name = (resolver.resolve files content).1 := by
  rw [loadConfig, readTree, read]

/-- A file that a run opens is loaded from its directory by its name with what
the reference to it stands for. -/
theorem loadConfig_of_opened
    {files : FileSystem}
    {options : Options}
    {modules base : Path}
    {tree node : Node}
    {resolving : List Path}
    {home path : Path} {value : String} {content : Node}
    (nested : options.resolveNested = true)
    (found : options.modulesRoot files = .ok modules)
    (rooted : base.anchor ≠ .relative)
    (ended :
      (Setting.nestedIn files modules).result .empty [] base tree = .ok node)
    (reaches :
      (Setting.nestedIn files modules).Reaches .empty [] base tree resolving
        home value)
    (opens :
      (Setting.nestedIn files modules).Opens .empty home value path content) :
    ∃ folder name inner,
      path.parent? = some folder ∧ path.fileName? = some name ∧
      (Setting.nestedIn files modules).result .empty resolving home
          (.string value) = .ok inner ∧
      (Setting.nestedIn files modules).result .empty (path :: resolving) folder
          content = .ok inner ∧
      files.loadConfig (Resolver.ofText folder.text options) name =
        .ok inner := by
  have packages :
      ∀ name root,
        PackageCache.empty.answer (Setting.nestedIn files modules).search name =
          some root → (Path.ofText root).anchor ≠ .relative := by
    intro name root answer
    rw [PackageCache.answer_empty] at answer
    exact rooted_of_searchModules (options.rooted_modulesRoot found) answer
  obtain ⟨rootedPath, folder, name, inner, above, last, rootedFolder,
      endedString, endedContent, endedAlone⟩ :=
    Setting.result_of_opened packages rooted ended reaches opens
  have sameBase :
      Resolver.ofText folder.text options = ⟨folder, options, none⟩ := by
    rw [Resolver.ofText, Path.ofText_text]
  have read := Setting.readTarget_join_fileName rootedPath above last opens.read
  have loaded :
      files.loadConfig (Resolver.ofText folder.text options) name =
        .ok inner := by
    rw [sameBase, loadConfig_of_readTarget read,
      Resolver.resolve_of_rooted rootedFolder nested found, Setting.run_fst]
    exact endedAlone
  exact ⟨folder, name, inner, above, last, endedString, endedContent, loaded⟩

end FileSystem

/-- In a nested run that comes out, a reference to a file that holds a mapping
or sequence stands for the file's content with its own strings replaced in turn,
seen from the file's directory, and that is what loading the file from its
directory by its name gives. So it is the same wherever the file is referred
to. -/
theorem nested_value_eq_loadConfig
    {files : FileSystem} {base : String} {options : Options} {tree node : Node}
    (rooted : (Path.ofText base).anchor ≠ .relative)
    (nested : options.resolveNested = true)
    (resolved :
      ((Resolver.ofText base options).resolve files tree).1 = .ok node) :
    ∃ modules, options.modulesRoot files = .ok modules ∧
      let setting := Setting.nestedIn files modules
      node = tree.substitute (setting.meaningIn .empty [] (Path.ofText base)) ∧
      (∀ resolving home value path content,
        setting.Reaches .empty [] (Path.ofText base) tree resolving home value →
        setting.Opens .empty home value path content →
        ∃ folder name, path.parent? = some folder ∧ path.fileName? = some name ∧
          setting.meaningIn .empty resolving home value =
            content.substitute
              (setting.meaningIn .empty (path :: resolving) folder) ∧
          setting.result .empty resolving home (.string value) =
            .ok (setting.meaningIn .empty resolving home value) ∧
          files.loadConfig (Resolver.ofText folder.text options) name =
            .ok (setting.meaningIn .empty resolving home value)) ∧
      ∀ resolving home value resolving' home' value' path content content',
        setting.Reaches .empty [] (Path.ofText base) tree resolving home value →
        setting.Opens .empty home value path content →
        setting.Reaches .empty [] (Path.ofText base) tree resolving' home'
          value' →
        setting.Opens .empty home' value' path content' →
        setting.meaningIn .empty resolving home value =
          setting.meaningIn .empty resolving' home' value' := by
  obtain ⟨modules, found⟩ := Resolver.exists_modulesRoot_of_resolve resolved
  have ended :
      (Setting.nestedIn files modules).result .empty [] (Path.ofText base)
          tree = .ok node := by
    have ran := Resolver.resolve_of_rooted rooted nested found tree
    exact (congrArg Prod.fst ran).symm.trans resolved
  refine ⟨modules, found, Setting.eq_substitute_of_result ended, ?_, ?_⟩
  · intro resolving home value path content reaches opens
    obtain ⟨folder, name, inner, above, last, endedString, endedContent,
        loaded⟩ :=
      FileSystem.loadConfig_of_opened nested found rooted ended reaches opens
    rw [Setting.meaningIn_eq endedString]
    exact ⟨folder, name, above, last,
      Setting.eq_substitute_of_result endedContent, endedString, loaded⟩
  · intro resolving home value resolving' home' value' path content content'
      reaches opens reaches' opens'
    obtain ⟨folder, name, inner, above, last, endedString, _, loaded⟩ :=
      FileSystem.loadConfig_of_opened nested found rooted ended reaches opens
    obtain ⟨folder', name', inner', above', last', endedString', _, loaded'⟩ :=
      FileSystem.loadConfig_of_opened nested found rooted ended reaches' opens'
    cases above.symm.trans above'
    cases last.symm.trans last'
    rw [Setting.meaningIn_eq endedString, Setting.meaningIn_eq endedString']
    exact Except.ok.inj (loaded.symm.trans loaded')

/-! ## Two files, one in the other -/

theorem FileSystem.load_of_json
    {files : FileSystem} {path : Path} {text : String} {content : Json.Value}
    (present : files.find path.text = .ok (.file text.toUTF8))
    (format : Format.ofPath? path = some .json)
    (parsed : Json.Value.ofText? text = some content) :
    files.load path = .ok (.json content) := by
  have held : files.readText path.text = .ok text := by
    rw [readText, present]
    dsimp only
    rw [fromUTF8?_toUTF8]
  have document : Document.ofText? .json text = some (.json content) := by
    rw [Document.ofText?, parsed]
    rfl
  have read := readDocument_of_format held format document
  rw [load_of_not_yaml, read]
  intro value same
  rw [read] at same
  cases same

namespace Setting

/-- References inside files are resolved, and packages come from a list. -/
def ofListed
    (files : FileSystem) (packages : List (String × String)) :
    Setting :=
  ⟨files, (PackageSource.listed packages).search files, true⟩

/-- A string that leads to a JSON file with an object or array opens it. -/
theorem opens_of_json
    {setting : Setting}
    {cache : PackageCache}
    {directory path : Path}
    {value text : String}
    {content : Json.Value}
    (leads : targetOf (cache.answer setting.search) directory value = some path)
    (present : setting.files.find path.text = .ok (.file text.toUTF8))
    (format : Format.ofPath? path = some .json)
    (parsed : Json.Value.ofText? text = some content)
    (composite : (Document.json content).isComposite = true)
    (nested : setting.resolveNested = true) :
    setting.Opens cache directory value path (Node.ofJson content) := by
  refine ⟨leads, ?_, ?_, nested⟩
  · rw [FileSystem.kind, present]
  · rw [readTarget, FileSystem.load_of_json present format parsed, ← composite]
    rfl

theorem opens_json
    {files : FileSystem}
    {modules directory path : Path}
    {value text : String}
    {content : Json.Value}
    (classified : Reference.classify value = .ok (some (.relative value)))
    (leads : directory.join value = path)
    (present : files.find path.text = .ok (.file text.toUTF8))
    (format : Format.ofPath? path = some .json)
    (parsed : Json.Value.ofText? text = some content)
    (composite : (Document.json content).isComposite = true) :
    (nestedIn files modules).Opens .empty directory value path
      (Node.ofJson content) := by
  refine opens_of_json ?_ present format parsed composite rfl
  rw [targetOf, classified, ← leads]

end Setting

/-- The file `/d/a.json` refers to `/d/b.json`, which holds an empty
sequence. -/
def twoFiles : FileSystem :=
  ⟨[("d",
      .directory
        [("a.json", .file "[\"./b.json\"]".toUTF8),
          ("b.json", .file "[]".toUTF8)])], []⟩

def nestedOptions : Options :=
  ⟨none, "node_modules", true⟩

private theorem opens_twoFiles_outer (modules : Path) :
    (Setting.nestedIn twoFiles modules).Opens .empty (Path.ofText "/d")
      "./a.json" (Path.ofText "/d/a.json")
      (.sequence [.string "./b.json"]) := by
  have present :
      twoFiles.find (Path.ofText "/d/a.json").text =
        .ok (.file "[\"./b.json\"]".toUTF8) :=
    FileSystem.find_placeText ["a.json", "d"] rfl rfl (by decide)
  have parsed :
      Json.Value.ofText? "[\"./b.json\"]" =
        some (.array [.string "./b.json"]) := by
    cbv
  exact Setting.opens_json (by decide) (by decide) present rfl parsed rfl

private theorem opens_twoFiles_inner (modules : Path) :
    (Setting.nestedIn twoFiles modules).Opens .empty (Path.ofText "/d")
      "./b.json" (Path.ofText "/d/b.json") (.sequence []) := by
  have present :
      twoFiles.find (Path.ofText "/d/b.json").text = .ok (.file "[]".toUTF8) :=
    FileSystem.find_placeText ["b.json", "d"] rfl rfl (by decide)
  have parsed : Json.Value.ofText? "[]" = some (.array []) := rfl
  exact Setting.opens_json (by decide) (by decide) present rfl parsed rfl

theorem nested_value_eq_loadConfig_twoFiles :
    (Path.ofText "/d").anchor ≠ .relative ∧ nestedOptions.resolveNested = true ∧
      ((Resolver.ofText "/d" nestedOptions).resolve twoFiles
          (.sequence [.string "./a.json"])).1 =
        .ok (.sequence [.sequence [.sequence []]]) ∧
      twoFiles.loadConfig (Resolver.ofText "/d" nestedOptions) "b.json" =
        .ok (.sequence []) := by
  have rooted : (Path.ofText "/d").anchor ≠ .relative := by decide
  have homeOuter :
      Setting.homeOf (Path.ofText "/d/a.json") = Path.ofText "/d" := by
    decide
  have homeInner :
      Setting.homeOf (Path.ofText "/d/b.json") = Path.ofText "/d" := by
    decide
  obtain ⟨modules, found⟩ :
      ∃ modules, nestedOptions.modulesRoot twoFiles = .ok modules :=
    ⟨_, rfl⟩
  have endedInner :
      (Setting.nestedIn twoFiles modules).result .empty
          [Path.ofText "/d/a.json"] (Path.ofText "/d") (.string "./b.json") =
        .ok (.sequence []) := by
    have noStrings :
        ∀ string ∈ (Node.sequence []).strings [],
          ∃ node,
            (Setting.nestedIn twoFiles modules).result .empty
                [Path.ofText "/d/b.json", Path.ofText "/d/a.json"]
                (Path.ofText "/d") (.string string.2) = .ok node :=
      fun _ member => absurd member List.not_mem_nil
    rw [Setting.result_of_opens (opens_twoFiles_inner _) (by decide), homeInner,
      Setting.result_eq_ok_substitute noStrings]
    rfl
  have endedOuter :
      (Setting.nestedIn twoFiles modules).result .empty [] (Path.ofText "/d")
          (.string "./a.json") = .ok (.sequence [.sequence []]) := by
    rw [Setting.result_of_opens (opens_twoFiles_outer _) List.not_mem_nil,
      homeOuter, Setting.result_singleton endedInner]
    rfl
  have resolved :
      ((Resolver.ofText "/d" nestedOptions).resolve twoFiles
          (.sequence [.string "./a.json"])).1 =
        .ok (.sequence [.sequence [.sequence []]]) := by
    have ran :=
      Resolver.resolve_of_rooted rooted rfl found
        (.sequence [.string "./a.json"])
    exact (congrArg Prod.fst ran).trans (Setting.result_singleton endedOuter)
  obtain ⟨again, foundAgain, _, alone, _⟩ :=
    nested_value_eq_loadConfig rooted rfl resolved
  cases found.symm.trans foundAgain
  have reaches :
      (Setting.nestedIn twoFiles modules).Reaches .empty [] (Path.ofText "/d")
        (.sequence [.string "./a.json"]) [Path.ofText "/d/a.json"]
        (Path.ofText "/d") "./b.json" := by
    refine .inside ⟨[], [], rfl, by simp⟩ (opens_twoFiles_outer _)
      List.not_mem_nil ?_
    rw [homeOuter]
    exact .here ⟨[], [], rfl, by simp⟩
  obtain ⟨folder, name, above, last, _, _, loaded⟩ :=
    alone _ _ _ _ _ reaches (opens_twoFiles_inner _)
  have parent :
      (Path.ofText "/d/b.json").parent? = some (Path.ofText "/d") := by
    decide
  have own : (Path.ofText "/d/b.json").fileName? = some "b.json" := by decide
  have text : (Path.ofText "/d").text = "/d" := by decide
  cases above.symm.trans parent
  cases last.symm.trans own
  rw [Setting.meaningIn_eq endedInner, text] at loaded
  exact ⟨rooted, rfl, resolved, loaded⟩

end ConfigTree
