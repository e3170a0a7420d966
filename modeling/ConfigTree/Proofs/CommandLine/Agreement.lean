import ConfigTree.Proofs.CommandLine.Options
import ConfigTree.Proofs.CommandLine.Printing
import ConfigTree.Proofs.Document.Shares
import ConfigTree.Proofs.Resolver.Modular

/-!
# Commands and loading

A command puts its options together and finds the directory of its file by
itself. What it comes to is what loading the file by name from that directory
with those options comes to, success or failure (`commands_agree_with_loading`).
-/

namespace ConfigTree

/-! ## Failures of one variant -/

/-- Two failures are the same, or both are of loading a file and say the same
but for the paths in them. -/
def Failure.Alike (failure other : Failure) : Prop :=
  failure = other ∨
    ∃ fault again,
      failure = .ofFault (.load fault) ∧ other = .ofFault (.load again) ∧
      fault.kind = again.kind

/-- Two results are the same, or both are failures of one variant. -/
inductive ComesOutAlike
    {α : Type} :
    Except Failure α → Except Failure α → Prop where
  | ok (value : α) : ComesOutAlike (.ok value) (.ok value)
  | error
      {failure other : Failure} (alike : failure.Alike other) :
      ComesOutAlike (.error failure) (.error other)

namespace ComesOutAlike

variable {α β : Type} {result other : Except Failure α}

private theorem refl
    (result : Except Failure α) :
    ComesOutAlike result result := by
  cases result with
  | ok value => exact .ok value
  | error failure => exact .error (.inl rfl)

private theorem bind
    (alike : ComesOutAlike result other) (next : α → Except Failure β) :
    ComesOutAlike (result.bind next) (other.bind next) := by
  cases alike with
  | ok value => exact refl _
  | error alike => exact .error alike

end ComesOutAlike

namespace FileSystem

variable {files : FileSystem}

/-- Files that load alike are read alike. -/
theorem readTree_alike
    {path other : Path}
    (loaded :
      (files.load path).mapError LoadFault.kind =
        (files.load other).mapError LoadFault.kind) :
    ComesOutAlike (files.readTree path) (files.readTree other) := by
  unfold readTree Setting.readTarget
  cases load : files.load path with
  | error fault =>
      cases loadOther : files.load other with
      | error again =>
          rw [load, loadOther] at loaded
          exact .error (.inr ⟨fault, again, rfl, rfl, Except.error.inj loaded⟩)
      | ok document =>
          rw [load, loadOther] at loaded
          cases loaded
  | ok document =>
      cases loadOther : files.load other with
      | error again =>
          rw [load, loadOther] at loaded
          cases loaded
      | ok again =>
          rw [load, loadOther] at loaded
          cases loaded
          exact .refl _

private theorem loadConfig_eq (resolver : Resolver) (name : String) :
    files.loadConfig resolver name =
      (files.readTree (resolver.base.join name)).bind fun tree =>
        (resolver.resolve files tree).1 := by
  unfold loadConfig
  cases files.readTree (resolver.base.join name) with
  | error failure => rfl
  | ok tree => rfl

/-- The table of a tree, or why there is none. -/
def tableOfTree (tree : Node) : Except Failure RoutingTable :=
  (RoutingTable.bind tree).mapError .ofFault

private theorem loadRouting_eq (resolver : Resolver) (name : String) :
    files.loadRouting resolver name =
      (files.loadConfig resolver name).bind tableOfTree := by
  unfold loadRouting
  cases files.loadConfig resolver name with
  | error failure => rfl
  | ok tree =>
      dsimp only [Except.bind, tableOfTree]
      cases RoutingTable.bind tree with
      | error fault => rfl
      | ok table => rfl

end FileSystem

namespace CommandLine

/-! ## What commands come to -/

/-- The file of a request is the one of that name in a directory: in the one
that the request asks for, or in the file's own. -/
def Locates
    (files : FileSystem)
    (request : Request)
    (file base : Path)
    (name : String) :
    Prop :=
  match request.baseDir with
  | some directory =>
      absolute files directory = .ok base ∧ base.join name = file
  | none => file.parent? = some base ∧ file.fileName? = some name

/-- The tree that a request comes to. -/
def treeOf (files : FileSystem) (request : Request) : Except Refusal Node :=
  (resolveFile files request).map Prod.fst

/-- The table that a request comes to. -/
def tableOf
    (files : FileSystem) (request : Request) :
    Except Refusal RoutingTable :=
  (treeOf files request).bind fun tree =>
    (FileSystem.tableOfTree tree).mapError .failure

/-- A result is the expected one, or it is a refusal for a failure of the
expected variant. -/
def Agrees
    {α : Type} (result : Except Refusal α) (expected : Except Failure α) :
    Prop :=
  ∃ again, result = again.mapError .failure ∧ ComesOutAlike again expected

private theorem agrees_ok_iff
    {α : Type}
    {result : Except Refusal α}
    {expected : Except Failure α}
    {value : α}
    (agrees : Agrees result expected) :
    result = .ok value ↔ expected = .ok value := by
  obtain ⟨_, rfl, alike⟩ := agrees
  cases alike with
  | ok other => simp [Except.mapError]
  | error alike => simp [Except.mapError]

/-- A run ends with the tree printed, or with the refusal. -/
def Shows
    (outcome : Outcome) (format : OutputFormat) (result : Except Refusal Node) :
    Prop :=
  ∃ report, outcome =
    match result with
    | .ok tree => ⟨0, render format tree, report⟩
    | .error refusal => refused report refusal

variable {files : FileSystem} {request : Request} {options : Options}
  {file base : Path} {name : String}

private theorem baseOf_of_locates
    (located : Locates files request file base name) :
    baseOf files request file = .ok base := by
  unfold Locates at located
  unfold baseOf
  cases asked : request.baseDir with
  | some directory =>
      rw [asked] at located
      exact located.1
  | none =>
      rw [asked] at located
      simp only [located.1]

private theorem rooted_absolute
    (found : absolute files request.file = .ok file) :
    file.anchor ≠ .relative := by
  unfold absolute at found
  split at found
  · rename_i path seen
    cases found
    exact FileSystem.rooted_absolute seen
  · cases found

/-- The file and the one of the name in the directory are read alike. -/
theorem readTree_of_locates
    (found : absolute files request.file = .ok file)
    (located : Locates files request file base name) :
    ComesOutAlike (files.readTree file) (files.readTree (base.join name)) := by
  unfold Locates at located
  cases asked : request.baseDir with
  | some directory =>
      rw [asked] at located
      rw [located.2]
      exact .refl _
  | none =>
      rw [asked] at located
      obtain ⟨above, last⟩ := located
      exact FileSystem.readTree_alike
        (FileSystem.load_join_fileName_alike (rooted_absolute found) above last)

/-- The steps of a request: its file is read, and the tree is resolved against
the directory. -/
theorem treeOf_eq
    (found : absolute files request.file = .ok file)
    (seen : baseOf files request file = .ok base)
    (read : optionsOf files request = .ok options) :
    treeOf files request =
      ((files.readTree file).bind fun tree =>
        ((Resolver.mk base options none).resolve files tree).1).mapError
        .failure := by
  unfold treeOf resolveFile
  rw [found]
  simp only [bind, Except.bind, seen, read]
  cases files.readTree file with
  | error failure => rfl
  | ok tree =>
      dsimp only [Except.mapError]
      rcases (Resolver.mk base options none).resolve files tree with
        ⟨_ | _, journal⟩
      · rfl
      · rfl

private theorem treeOf_agrees
    (found : absolute files request.file = .ok file)
    (read : optionsOf files request = .ok options)
    (located : Locates files request file base name) :
    Agrees (treeOf files request)
      (files.loadConfig (Resolver.ofText base.text options) name) := by
  have resolver :
      Resolver.ofText base.text options = ⟨base, options, none⟩ := by
    rw [Resolver.ofText, Path.ofText_text]
  refine ⟨_, treeOf_eq found (baseOf_of_locates located) read, ?_⟩
  rw [resolver, FileSystem.loadConfig_eq]
  exact (readTree_of_locates found located).bind _

private theorem tableOf_agrees
    {tree : Except Failure Node} (agrees : Agrees (treeOf files request) tree) :
    Agrees (tableOf files request) (tree.bind FileSystem.tableOfTree) := by
  obtain ⟨again, same, alike⟩ := agrees
  refine ⟨again.bind FileSystem.tableOfTree, ?_, alike.bind _⟩
  rw [tableOf, same]
  cases again with
  | error failure => rfl
  | ok tree => rfl

/-! ## What runs show -/

private theorem shows_treeOf (files : FileSystem) (request : Request) :
    Shows (runCommand files .resolve request) request.format
      (treeOf files request) := by
  unfold runCommand treeOf
  cases resolveFile files request with
  | error refusal => exact ⟨"", rfl⟩
  | ok resolved => exact ⟨_, rfl⟩

private theorem shows_tableOf (files : FileSystem) (request : Request) :
    Shows (runCommand files .routes request) request.format
      ((tableOf files request).map RoutingTable.toNode) := by
  unfold runCommand tableOf treeOf
  cases resolveFile files request with
  | error refusal => exact ⟨"", rfl⟩
  | ok resolved =>
      simp only [Except.map, Except.bind, FileSystem.tableOfTree]
      cases RoutingTable.bind resolved.1 with
      | error fault => exact ⟨_, rfl⟩
      | ok table => exact ⟨_, rfl⟩

/-- Whatever file a request names, and wherever its options come from: what it
comes to is what loading the file of that name from its directory comes to with
the options of the request, which are those of its arguments, else those of its
settings file, else defaults. Both give the same tree and the same table, or
both fail by a failure of the same variant, and that is what runs of the
commands end with. -/
theorem commands_agree_with_loading
    {given : GivenOptions}
    (found : absolute files request.file = .ok file)
    (gives : Gives files request given)
    (located : Locates files request file base name) :
    let resolver := Resolver.ofText base.text (request.merge given)
    Agrees (treeOf files request) (files.loadConfig resolver name) ∧
      Agrees (tableOf files request) (files.loadRouting resolver name) ∧
      Shows (runCommand files .resolve request) request.format
        (treeOf files request) ∧
      Shows (runCommand files .routes request) request.format
        ((tableOf files request).map RoutingTable.toNode) := by
  intro resolver
  have read : optionsOf files request = .ok (request.merge given) :=
    optionsOf_eq_ok_iff.mpr ⟨given, gives, rfl⟩
  have trees := treeOf_agrees found read located
  refine ⟨trees, ?_, shows_treeOf files request, shows_tableOf files request⟩
  rw [FileSystem.loadRouting_eq]
  exact tableOf_agrees trees

/-- In the current directory `/work` there are the settings file `o.json`, which
names a modules directory, that directory with a package in it, and
`conf/main.json`, which refers to the package. -/
def workshop : FileSystem :=
  ⟨[("work", .directory
      [("o.json", .file "\x7b\"modules_dir\": \"mods\"\x7d".toUTF8),
        ("mods", .directory [("p", .directory [])]),
        ("conf",
          .directory [("main.json", .file "[\"[module] p\"]".toUTF8)])])],
    ["work"]⟩

/-- To resolve that file with these settings, and with references inside files
resolved. -/
def workshopRequest : Request where
  file := "conf/main.json"
  baseDir := some "conf"
  projectRoot := none
  modulesDir := none
  optionsFile := some "o.json"
  format := .json
  nested := true
  report := false

private theorem absolute_workshop
    {text : String} {path : Path}
    (nonempty : text ≠ "")
    (seen : Path.ofText (workshop.absoluteText text) = path) :
    absolute workshop text = .ok path := by
  rw [absolute, FileSystem.absolute, if_neg nonempty, seen]

/-- What the settings file gives. -/
theorem gives_workshop :
    Gives workshop workshopRequest ⟨none, some "mods", none⟩ := by
  have path : absolute workshop "o.json" = .ok (Path.ofText "/work/o.json") :=
    absolute_workshop (by decide) (by decide)
  have held : workshop.readText (Path.ofText "/work/o.json").text =
      .ok "\x7b\"modules_dir\": \"mods\"\x7d" :=
    FileSystem.readText_placeText ["o.json", "work"] rfl (by decide)
  have format : Format.ofExtension?
      ((Path.ofText "/work/o.json").extension?.getD "") = some .json := rfl
  have said : Json.Syntax.ofText? "\x7b\"modules_dir\": \"mods\"\x7d" =
      some (.object
        [("modules_dir".toList.map .char,
          .string ("mods".toList.map .char))]) := by
    cbv
  have given : Options.given? .json "\x7b\"modules_dir\": \"mods\"\x7d" =
      some ⟨none, some "mods", none⟩ := by
    rw [Options.given?, Options.givenInJson?, said]
    rfl
  refine ⟨_, path, ?_⟩
  rw [FileSystem.loadSettings, held]
  dsimp only
  rw [format]
  dsimp only
  rw [given]

private theorem loadConfig_workshop :
    workshop.loadConfig (Resolver.ofText "/work/conf" ⟨none, "mods", true⟩)
        "main.json" =
      .ok (.sequence [.string "/work/mods/p"]) := by
  have joined : (Path.ofText "/work/conf").join "main.json" =
      Path.ofText "/work/conf/main.json" := by decide
  have present : workshop.find (Path.ofText "/work/conf/main.json").text =
      .ok (.file "[\"[module] p\"]".toUTF8) :=
    FileSystem.find_placeText ["main.json", "conf", "work"] rfl rfl (by decide)
  have parsed : Json.Value.ofText? "[\"[module] p\"]" =
      some (.array [.string "[module] p"]) := by cbv
  have read :
      Setting.readTarget workshop
          ((Path.ofText "/work/conf").join "main.json") =
        .ok (.sequence [.string "[module] p"], true) := by
    rw [joined, Setting.readTarget,
      FileSystem.load_of_json present rfl parsed]
    rfl
  have package : workshop.find "/work/mods/p" = .ok (.directory []) :=
    FileSystem.find_placeText ["p", "mods", "work"] rfl rfl (by decide)
  have isDirectory : workshop.kind "/work/mods/p" = .ok .directory := by
    rw [FileSystem.kind, package]
  have found :
      workshop.searchModules "/work/mods" "p" = some "/work/mods/p" := by
    have direct : joinText "/work/mods" "p" = "/work/mods/p" := by decide
    rw [FileSystem.searchModules, direct, FileSystem.isDirectory, isDirectory]
    rfl
  have modules : (Options.mk none "mods" true).modulesRoot workshop =
      .ok (Path.ofText "/work/mods") := by
    have root : (Path.ofText workshop.currentText).join "mods" =
        Path.ofText "/work/mods" := by decide
    rw [Options.modulesRoot, root]
  have reference : Reference.classify "[module] p" =
      .ok (some (.package "p" "")) := by decide
  have target :
      ((Path.ofText "/work/mods/p").join "").text = "/work/mods/p" := by
    decide
  have setting : Setting.nestedIn workshop (Path.ofText "/work/mods") =
      ⟨workshop, workshop.searchModules "/work/mods", true⟩ := by
    have text : (Path.ofText "/work/mods").text = "/work/mods" := by decide
    rw [Setting.nestedIn, text]
  have ended :
      (Setting.nestedIn workshop (Path.ofText "/work/mods")).result .empty []
          (Path.ofText "/work/conf") (.string "[module] p") =
        .ok (.string "/work/mods/p") := by
    rw [setting, ← target]
    exact Setting.result_of_installed reference found (target ▸ isDirectory)
  have ran :
      (Resolver.ofText "/work/conf" ⟨none, "mods", true⟩).resolve workshop
          (.sequence [.string "[module] p"]) =
        (Setting.nestedIn workshop (Path.ofText "/work/mods")).run .empty
          (Path.ofText "/work/conf") (.sequence [.string "[module] p"]) :=
    Resolver.resolve_of_rooted (by decide) rfl modules _
  rw [FileSystem.loadConfig_of_readTarget read]
  exact (congrArg Prod.fst ran).trans (Setting.result_singleton ended)

theorem commands_agree_with_loading_workshop :
    let file := Path.ofText "/work/conf/main.json"
    let base := Path.ofText "/work/conf"
    let given : GivenOptions := ⟨none, some "mods", none⟩
    absolute workshop workshopRequest.file = .ok file ∧
      Gives workshop workshopRequest given ∧
      Locates workshop workshopRequest file base "main.json" ∧
      workshopRequest.merge given = ⟨none, "mods", true⟩ ∧
      workshop.loadConfig
          (Resolver.ofText base.text (workshopRequest.merge given))
          "main.json" = .ok (.sequence [.string "/work/mods/p"]) ∧
      treeOf workshop workshopRequest =
        .ok (.sequence [.string "/work/mods/p"]) := by
  intro file base given
  have found : absolute workshop workshopRequest.file = .ok file :=
    absolute_workshop (by decide) (by decide)
  have located : Locates workshop workshopRequest file base "main.json" :=
    ⟨absolute_workshop (by decide) (by decide), by decide⟩
  have text : base.text = "/work/conf" := by decide
  have loaded : workshop.loadConfig
      (Resolver.ofText base.text (workshopRequest.merge given)) "main.json" =
        .ok (.sequence [.string "/work/mods/p"]) := by
    rw [text]
    exact loadConfig_workshop
  have agrees := (commands_agree_with_loading found gives_workshop located).1
  exact ⟨found, gives_workshop, located, rfl, loaded,
    (agrees_ok_iff agrees).mpr loaded⟩

end CommandLine

end ConfigTree
