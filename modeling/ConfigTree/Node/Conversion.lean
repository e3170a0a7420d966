import ConfigTree.Json.Value
import ConfigTree.Node.Basic
import ConfigTree.Text.Blank
import ConfigTree.Toml.Value
import ConfigTree.Yaml.Printer

/-!
# Trees from documents and back

Every JSON or TOML value is a tree. A YAML value is one unless two keys of a
mapping differ only in their types, since a tree's keys are texts. A number that
is not finite becomes a string.
-/

namespace ConfigTree.Node

/-- The texts of numbers that a tree holds as strings. -/
def wordLayout : Double.Layout :=
  { Yaml.numberLayout with nan := "NaN", infinity := "inf" }

def ofReal (value : Double) : Node :=
  if value.isFinite then
    .number (.real value)
  else
    .string (value.text wordLayout)

/-! ## JSON -/

mutual

def ofJson : Json.Value → Node
  | .null => .null
  | .bool value => .bool value
  | .number value => .number value
  | .string value => .string value
  | .array items => .sequence (ofJsonItems items)
  | .object members => .mapping (ofJsonMembers members)

def ofJsonItems : List Json.Value → List Node
  | [] => []
  | item :: rest => ofJson item :: ofJsonItems rest

def ofJsonMembers : List (String × Json.Value) → List (String × Node)
  | [] => []
  | (name, value) :: rest => (name, ofJson value) :: ofJsonMembers rest

end

mutual

/-- The tree as a JSON value. A missing package is null there. -/
def toJson : Node → Json.Value
  | .null | .missingPackage _ => .null
  | .bool value => .bool value
  | .number value => .number value
  | .string value => .string value
  | .sequence items => .array (toJsonItems items)
  | .mapping entries => .object (toJsonMembers entries)

def toJsonItems : List Node → List Json.Value
  | [] => []
  | item :: rest => item.toJson :: toJsonItems rest

def toJsonMembers : List (String × Node) → List (String × Json.Value)
  | [] => []
  | (key, value) :: rest => (key, value.toJson) :: toJsonMembers rest

end

/-! ## TOML -/

mutual

def ofToml : Toml.Value → Node
  | .string value => .string value
  | .integer value => .number (.integer value)
  | .real value => ofReal value
  | .bool value => .bool value
  | .datetime value => .string value.text
  | .array items => .sequence (ofTomlItems items)
  | .table members => .mapping (ofTomlMembers members)

def ofTomlItems : List Toml.Value → List Node
  | [] => []
  | item :: rest => ofToml item :: ofTomlItems rest

def ofTomlMembers : List (String × Toml.Value) → List (String × Node)
  | [] => []
  | (name, value) :: rest => (name, ofToml value) :: ofTomlMembers rest

end

/-! ## YAML -/

/-- A key that two entries of one mapping have as their text. -/
structure DuplicateKey where
  key : String
deriving DecidableEq, Repr, Inhabited

/-- A key as text. A collection is written as YAML; one that cannot be written
is the empty text. -/
def keyText : Yaml.Value → String
  | .null => "null"
  | .bool value => if value then "true" else "false"
  | .number value => Yaml.numberText value
  | .string value => value
  | .tagged _ value => keyText value
  | collection => (collection.text?.map Text.trimEnd).getD ""

mutual

def ofYaml : Yaml.Value → Except DuplicateKey Node
  | .null => .ok .null
  | .bool value => .ok (.bool value)
  | .number (.integer value) => .ok (.number (.integer value))
  | .number (.real value) => .ok (ofReal value)
  | .string value => .ok (.string value)
  | .sequence items =>
    match ofYamlItems items with
    | .error duplicate => .error duplicate
    | .ok items => .ok (.sequence items)
  | .mapping entries =>
    match ofYamlEntries [] entries with
    | .error duplicate => .error duplicate
    | .ok entries => .ok (.mapping entries)
  | .tagged _ value => ofYaml value

def ofYamlItems : List Yaml.Value → Except DuplicateKey (List Node)
  | [] => .ok []
  | item :: rest =>
    match ofYaml item with
    | .error duplicate => .error duplicate
    | .ok item =>
      match ofYamlItems rest with
      | .error duplicate => .error duplicate
      | .ok rest => .ok (item :: rest)

/-- The entries behind those whose keys are given. A key is compared with them
before its value is looked at. -/
def ofYamlEntries
    (before : List String) :
    List (Yaml.Value × Yaml.Value) → Except DuplicateKey (List (String × Node))
  | [] => .ok []
  | (key, value) :: rest =>
    let key := keyText key
    if key ∈ before then .error ⟨key⟩
    else
      match ofYaml value with
      | .error duplicate => .error duplicate
      | .ok value =>
        match ofYamlEntries (key :: before) rest with
        | .error duplicate => .error duplicate
        | .ok rest => .ok ((key, value) :: rest)

end

mutual

/-- The tree as a YAML value. A missing package is null there. -/
def toYaml : Node → Yaml.Value
  | .null | .missingPackage _ => .null
  | .bool value => .bool value
  | .number value => .number value
  | .string value => .string value
  | .sequence items => .sequence (toYamlItems items)
  | .mapping entries => .mapping (toYamlEntries entries)

def toYamlItems : List Node → List Yaml.Value
  | [] => []
  | item :: rest => item.toYaml :: toYamlItems rest

def toYamlEntries : List (String × Node) → List (Yaml.Value × Yaml.Value)
  | [] => []
  | (key, value) :: rest => (.string key, value.toYaml) :: toYamlEntries rest

end

end ConfigTree.Node
