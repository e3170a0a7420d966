import ConfigTree.CommandLine.Basic

/-!
# Where options come from

A settings file gives some of the options (`Options.given?`), and those that it
leaves out keep their defaults (`loadOptions_eq`). A command takes an option
from its arguments, else from the settings file that they name, else the default
(`optionsOf_eq_ok_iff`).
-/

namespace ConfigTree

namespace Options

open GivenOptions

/-! ## What a settings file gives -/

def givenInJson? (text : String) : Option GivenOptions :=
  match Json.Syntax.ofText? text with
  | some (.object members) => members.foldlM giveMember GivenOptions.none
  | some (.array items) =>
    if keys.length < items.length then Option.none
    else
      (keys.zip items).foldlM
        (fun given (key, item) => give inJson given key item) GivenOptions.none
  | _ => Option.none

def givenInToml? (text : String) : Option GivenOptions :=
  (Toml.tableOfText? text).bind fun members =>
    members.foldlM (fun given (key, value) => give inToml given key value)
      GivenOptions.none

/-- What a node gives: an empty one nothing, a mapping what its entries do. -/
def givenInNode : Yaml.Markup → Yaml.Value.Compose GivenOptions
  | .scalar _ _ .plain "" => pure GivenOptions.none
  | .mapping _ _ entries => entries.foldlM giveEntry GivenOptions.none
  | _ => failure

def givenInMarkup (markup : Yaml.Markup) : Yaml.Value.Compose GivenOptions := do
  let found ← Yaml.Value.deref markup
  givenInNode found

def givenInYaml? (text : String) : Option GivenOptions :=
  match Yaml.Markup.ofText? text with
  | Option.none => Option.none
  | some Option.none => some GivenOptions.none
  | some (some markup) => Yaml.Value.runCompose (givenInMarkup markup) markup

/-- The options that a text gives in a format. -/
def given? (format : Format) (text : String) : Option GivenOptions :=
  match format with
  | .json => givenInJson? text
  | .toml => givenInToml? text
  | .yaml => givenInYaml? text

private theorem ofJson?_eq
    (text : String) :
    ofJson? text = (givenInJson? text).map complete := by
  unfold ofJson? givenInJson?
  rcases Json.Syntax.ofText? text with _ | (_ | _ | _ | _ | items | members)
  case some.array =>
    dsimp only
    by_cases long : keys.length < items.length
    · rw [if_pos long, if_pos long, Option.map_none]
    · rw [if_neg long, if_neg long]
  all_goals rfl

private theorem ofToml?_eq
    (text : String) :
    ofToml? text = (givenInToml? text).map complete := by
  unfold ofToml? givenInToml?
  rw [Option.map_bind]
  rfl

private theorem givenInNode_of_other
    {node : Yaml.Markup}
    (notEmpty : ∀ anchor tag, node ≠ .scalar anchor tag .plain "")
    (notMapping : ∀ anchor tag entries, node ≠ .mapping anchor tag entries) :
    givenInNode node = failure := by
  unfold givenInNode
  split
  · exact absurd rfl (notEmpty _ _)
  · exact absurd rfl (notMapping _ _ _)
  · rfl

private theorem ofMarkup_eq
    (markup : Yaml.Markup) :
    ofMarkup markup = complete <$> givenInMarkup markup := by
  unfold ofMarkup givenInMarkup
  rw [map_bind]
  congr 1
  funext found
  split
  · rfl
  · rfl
  · rename_i notEmpty notMapping
    rw [givenInNode_of_other notEmpty notMapping]
    rfl

private theorem ofYaml?_eq
    (text : String) :
    ofYaml? text = (givenInYaml? text).map complete := by
  unfold ofYaml? givenInYaml?
  rcases Yaml.Markup.ofText? text with _ | (_ | markup)
  · rfl
  · rfl
  · dsimp only
    unfold Yaml.Value.runCompose
    rw [ofMarkup_eq, StateT.run_map]
    cases (givenInMarkup markup).run ⟨markup.anchored, 100 * markup.size⟩ with
    | none => rfl
    | some found => rfl

/-- The options that a text holds are those that it gives, and defaults for the
others. -/
theorem ofText?_eq
    (format : Format) (text : String) :
    ofText? format text = (given? format text).map complete := by
  cases format with
  | json => exact ofJson?_eq text
  | toml => exact ofToml?_eq text
  | yaml => exact ofYaml?_eq text

end Options

theorem FileSystem.loadOptions_eq (files : FileSystem) (path : Path) :
    files.loadOptions path =
      (files.loadSettings Options.given? path).map GivenOptions.complete := by
  unfold loadOptions loadSettings
  cases files.readText path.text with
  | error what => rfl
  | ok content =>
      dsimp only
      cases Format.ofExtension? (path.extension?.getD "") with
      | none => rfl
      | some format =>
          dsimp only
          rw [Options.ofText?_eq]
          cases Options.given? format content with
          | none => rfl
          | some given => rfl

namespace CommandLine

/-- The options that the settings file of a request gives, none if the request
names no file. -/
def Gives
    (files : FileSystem) (request : Request) (given : GivenOptions) :
    Prop :=
  match request.optionsFile with
  | none => given = .none
  | some text =>
      ∃ path,
        absolute files text = .ok path ∧
        files.loadSettings Options.given? path = .ok given

/-- Each option as the arguments have it, else as the settings file does, else
the default. -/
def Request.merge (request : Request) (given : GivenOptions) : Options where
  projectRoot :=
    match request.projectRoot with
    | some root => some root
    | none =>
      match given.projectRoot with
      | some root => root
      | none => Options.default.projectRoot
  modulesDir :=
    match request.modulesDir with
    | some name => name
    | none =>
      match given.modulesDir with
      | some name => name
      | none => Options.default.modulesDir
  resolveNested := request.nested || given.resolveNested = some true

private theorem merge_eq (request : Request) (given : GivenOptions) :
    request.merge given =
      { projectRoot := request.projectRoot <|> given.complete.projectRoot
        modulesDir := request.modulesDir.getD given.complete.modulesDir
        resolveNested := request.nested || given.complete.resolveNested } := by
  have root :
      (request.merge given).projectRoot =
        (request.projectRoot <|> given.complete.projectRoot) := by
    unfold Request.merge GivenOptions.complete
    cases request.projectRoot <;> cases given.projectRoot <;> rfl
  have name :
      (request.merge given).modulesDir =
        request.modulesDir.getD given.complete.modulesDir := by
    unfold Request.merge GivenOptions.complete
    cases request.modulesDir <;> cases given.modulesDir <;> rfl
  have nested :
      (request.merge given).resolveNested =
        (request.nested || given.complete.resolveNested) := by
    unfold Request.merge GivenOptions.complete
    rcases given.resolveNested with _ | _ | _ <;> rfl
  rw [← root, ← name, ← nested]

/-- A command's options, once the settings file has been read, are those that
the request and the file give. -/
theorem optionsOf_eq_ok_iff
    {files : FileSystem} {request : Request} {options : Options} :
    optionsOf files request = .ok options ↔
      ∃ given, Gives files request given ∧ options = request.merge given := by
  unfold optionsOf Gives
  cases request.optionsFile with
  | none =>
      have defaults : request.merge .none = _ := merge_eq request .none
      constructor
      · intro read
        cases read
        exact ⟨.none, rfl, defaults.symm⟩
      · rintro ⟨_, rfl, rfl⟩
        rw [defaults]
        rfl
  | some text =>
      dsimp only
      cases absolute files text with
      | error refusal =>
          constructor
          · intro read
            cases read
          · rintro ⟨_, ⟨_, ⟨⟩, _⟩, _⟩
      | ok path =>
          simp only [bind, Except.bind, files.loadOptions_eq, Except.ok.injEq,
            exists_eq_left']
          cases files.loadSettings Options.given? path with
          | error fault =>
              constructor
              · intro read
                cases read
              · rintro ⟨_, ⟨⟩, _⟩
          | ok given =>
              constructor
              · intro read
                cases read
                exact ⟨given, rfl, (merge_eq request given).symm⟩
              · rintro ⟨_, ⟨⟩, rfl⟩
                rw [merge_eq]
                rfl

end CommandLine

end ConfigTree
