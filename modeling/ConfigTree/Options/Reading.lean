import ConfigTree.Json.Value
import ConfigTree.Options.Basic
import ConfigTree.Toml.Value
import ConfigTree.Yaml.Value

/-!
# Reading options

A settings file may give each option once; an option that it leaves out keeps
its default, and what it says besides is not looked at. A JSON array gives the
options in their order. A YAML scalar is taken as the text it is written with.
-/

namespace ConfigTree

/-- The options that a settings file has given so far. -/
structure GivenOptions where
  projectRoot : Option (Option String)
  modulesDir : Option String
  resolveNested : Option Bool

namespace GivenOptions

def none : GivenOptions :=
  ⟨Option.none, Option.none, Option.none⟩

def complete (given : GivenOptions) : Options where
  projectRoot := given.projectRoot.getD Options.default.projectRoot
  modulesDir := given.modulesDir.getD Options.default.modulesDir
  resolveNested := given.resolveNested.getD Options.default.resolveNested

/-- How one format writes the values of the three options. -/
structure Spelling (α : Type) where
  path : α → Option (Option String)
  name : α → Option String
  flag : α → Option Bool

/-- The options with one more given. An option cannot be given twice. -/
def give
    {α : Type}
    (spelling : Spelling α)
    (given : GivenOptions)
    (key : String)
    (value : α) :
    Option GivenOptions :=
  if key = "project_root" then
    if given.projectRoot.isSome then Option.none
    else
      (spelling.path value).map fun path =>
        { given with projectRoot := some path }
  else if key = "modules_dir" then
    if given.modulesDir.isSome then Option.none
    else
      (spelling.name value).map fun name =>
        { given with modulesDir := some name }
  else if key = "resolve_nested" then
    if given.resolveNested.isSome then Option.none
    else
      (spelling.flag value).map fun flag =>
        { given with resolveNested := some flag }
  else some given

/-- The keys of the options, in their order. -/
def keys : List String :=
  ["project_root", "modules_dir", "resolve_nested"]

end GivenOptions

namespace Options

open GivenOptions

/-! ## JSON -/

def jsonString : Json.Syntax → Option String
  | .string pieces => Json.stringOf pieces
  | _ => Option.none

def inJson : Spelling Json.Syntax where
  path
    | .null => some Option.none
    | value => (jsonString value).map some
  name := jsonString
  flag
    | .bool value => some value
    | _ => Option.none

def giveMember
    (given : GivenOptions) (member : List Json.Piece × Json.Syntax) :
    Option GivenOptions :=
  (Json.stringOf member.1).bind fun key => give inJson given key member.2

def ofJson? (text : String) : Option Options :=
  match Json.Syntax.ofText? text with
  | some (.object members) =>
      (members.foldlM giveMember GivenOptions.none).map complete
  | some (.array items) =>
    if keys.length < items.length then Option.none
    else
      ((keys.zip items).foldlM
        (fun given (key, item) => give inJson given key item)
        GivenOptions.none).map complete
  | _ => Option.none

/-! ## TOML -/

def tomlString : Toml.Value → Option String
  | .string value => some value
  | _ => Option.none

def inToml : Spelling Toml.Value where
  path value := (tomlString value).map some
  name := tomlString
  flag
    | .bool value => some value
    | _ => Option.none

def ofToml? (text : String) : Option Options :=
  (Toml.tableOfText? text).bind fun members =>
    (members.foldlM (fun given (key, value) => give inToml given key value)
      GivenOptions.none).map complete

/-! ## YAML -/

def yamlText : Yaml.Markup → Option String
  | .scalar _ _ _ text => some text
  | _ => Option.none

/-- A path that may be missing: a null or nothing at all without quotes stands
for none. -/
def yamlPath : Yaml.Markup → Option (Option String)
  | .scalar _ tag .plain text =>
    match tag with
    | Option.none =>
        some (if text = "" || Yaml.isNullWord text then Option.none
          else some text)
    | some tag =>
      if tag = Yaml.Value.coreTag "null" then
        if Yaml.isNullWord text then some Option.none else Option.none
      else some (some text)
  | .scalar _ _ _ text => some (some text)
  | _ => Option.none

/-- A truth value without quotes, or in a literal block that is tagged as
one. -/
def yamlFlag : Yaml.Markup → Option Bool
  | .scalar _ _ .plain text => Yaml.boolWord? text
  | .scalar _ tag .literal text =>
      if tag = some (Yaml.Value.coreTag "bool") then
        Yaml.boolWord? text
      else
        Option.none
  | _ => Option.none

def inYaml : Spelling Yaml.Markup :=
  ⟨yamlPath, yamlText, yamlFlag⟩

def giveEntry
    (given : GivenOptions) (entry : Yaml.Markup × Yaml.Markup) :
    Yaml.Value.Compose GivenOptions := do
  let key ← Yaml.Value.deref entry.1
  match yamlText key with
  | Option.none => failure
  | some key =>
    if key ∈ keys then
      let value ← Yaml.Value.deref entry.2
      match give inYaml given key value with
      | some given => pure given
      | Option.none => failure
    else pure given

def ofMarkup (markup : Yaml.Markup) : Yaml.Value.Compose Options := do
  match ← Yaml.Value.deref markup with
  | .scalar _ _ .plain "" => pure Options.default
  | .mapping _ _ entries => do
    let given ← entries.foldlM giveEntry GivenOptions.none
    pure given.complete
  | _ => failure

def ofYaml? (text : String) : Option Options :=
  match Yaml.Markup.ofText? text with
  | Option.none => Option.none
  | some Option.none => some Options.default
  | some (some markup) => Yaml.Value.runCompose (ofMarkup markup) markup

def ofText? (format : Format) (text : String) : Option Options :=
  match format with
  | .json => ofJson? text
  | .toml => ofToml? text
  | .yaml => ofYaml? text

end Options

end ConfigTree
