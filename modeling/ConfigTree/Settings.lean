import ConfigTree.Document.Loading
import ConfigTree.Options.Reading

/-!
# Settings files

A settings file is read straight into what is asked for: options, or a JSON
value that takes whatever the file holds. A JSON value cannot hold tags of a
text's own, and numbers that are not finite become null in it.
-/

namespace ConfigTree

namespace Settings

/-- A number as a JSON value. -/
def ofNumber : Number → Json.Value
  | .integer value => .number (.integer value)
  | .real value => if value.isFinite then .number (.real value) else .null

/-! ## TOML -/

mutual

def ofToml : Toml.Value → Json.Value
  | .string value => .string value
  | .integer value => ofNumber (.integer value)
  | .real value => ofNumber (.real value)
  | .bool value => .bool value
  | .datetime value => .object [(Document.datetimeKey, .string value.text)]
  | .array items => .array (ofTomlItems items)
  | .table members => .object (ofTomlMembers members)

def ofTomlItems : List Toml.Value → List Json.Value
  | [] => []
  | item :: rest => ofToml item :: ofTomlItems rest

def ofTomlMembers : List (String × Toml.Value) → List (String × Json.Value)
  | [] => []
  | (name, value) :: rest => (name, ofToml value) :: ofTomlMembers rest

end

/-! ## YAML -/

/-- A scalar of YAML as a JSON value. -/
def ofYamlScalar : Yaml.Value → Option Json.Value
  | .null => some .null
  | .bool value => some (.bool value)
  | .number value => some (ofNumber value)
  | .string value => some (.string value)
  | _ => none

/-- The value of a node within a depth of collections. A key is the text of a
scalar, whatever its type; the last value of a key counts. -/
def ofMarkup : Nat → Yaml.Markup → Yaml.Value.Compose Json.Value
  | depth, markup => do
    match ← Yaml.Value.deref markup with
    | .alias _ => failure
    | .scalar _ tag style text =>
      if tag.any Yaml.Value.isOwnTag then failure
      else
        match (Yaml.Value.ofScalar tag style text).bind ofYamlScalar with
        | some value => pure value
        | none => failure
    | .sequence _ tag items =>
      match depth with
      | 0 => failure
      | depth + 1 =>
          if tag.any Yaml.Value.isOwnTag then
            failure
          else
            .array <$> items.mapM (ofMarkup depth)
    | .mapping _ tag entries =>
      match depth with
      | 0 => failure
      | depth + 1 =>
        if tag.any Yaml.Value.isOwnTag then failure
        else do
          let members ← entries.mapM fun (key, value) => do
            match ← Yaml.Value.deref key with
            | .scalar _ _ _ name => do
              let value ← ofMarkup depth value
              pure (name, value)
            | _ => failure
          pure (.object (Json.sortMembers members))

/-- The JSON value that a text holds in a format. -/
def ofText? (format : Format) (text : String) : Option Json.Value :=
  match format with
  | .json => Json.Value.ofText? text
  | .toml => (Toml.Value.ofText? text).map ofToml
  | .yaml =>
    match Yaml.Markup.ofText? text with
    | none => none
    | some none => some .null
    | some (some markup) =>
        Yaml.Value.runCompose (ofMarkup Yaml.Value.deepest markup) markup

end Settings

namespace FileSystem

/-- What a settings file at a path holds, by a reader of texts in each
format. -/
def loadSettings
    {α : Type}
    (read? : Format → String → Option α)
    (files : FileSystem)
    (path : Path) :
    Except LoadFault α :=
  match files.readText path.text with
  | .error what => .error (.obstacle path.text what)
  | .ok content =>
    let extension := path.extension?.getD ""
    match Format.ofExtension? extension with
    | none => .error (.unknownFormat extension)
    | some format =>
      match read? format content with
      | some settings => .ok settings
      | none => .error (.unreadable format path)

def loadOptions (files : FileSystem) (path : Path) : Except LoadFault Options :=
  files.loadSettings Options.ofText? path

end FileSystem

end ConfigTree
