import ConfigTree.Format
import ConfigTree.Node.Conversion

/-!
# Documents

What a file holds, in the shape its format gives it. A file without a format is
kept as text.
-/

namespace ConfigTree

inductive Document where
  | json (value : Json.Value)
  | yaml (value : Yaml.Value)
  | toml (value : Toml.Value)
  | text (content : String)
deriving Inhabited

namespace Document

def format? : Document → Option Format
  | .json _ => some .json
  | .yaml _ => some .yaml
  | .toml _ => some .toml
  | .text _ => none

/-- The document that a text holds in a format. -/
def ofText? (format : Format) (text : String) : Option Document :=
  match format with
  | .json => (Json.Value.ofText? text).map .json
  | .yaml => (Yaml.Value.ofText? text).map .yaml
  | .toml => (Toml.Value.ofText? text).map .toml

/-- Whether a YAML value is a mapping or a sequence, behind tags. -/
def isYamlCollection : Yaml.Value → Bool
  | .sequence _ | .mapping _ => true
  | .tagged _ value => isYamlCollection value
  | _ => false

/-- Whether the document is a mapping or a sequence. -/
def isComposite : Document → Bool
  | .json (.array _) | .json (.object _) => true
  | .yaml value => isYamlCollection value
  | .toml (.array _) | .toml (.table _) => true
  | _ => false

def toNode : Document → Except Node.DuplicateKey Node
  | .json value => .ok (Node.ofJson value)
  | .yaml value => Node.ofYaml value
  | .toml value => .ok (Node.ofToml value)
  | .text content => .ok (.string content)

/-! ## As YAML values -/

mutual

def yamlOfJson : Json.Value → Yaml.Value
  | .null => .null
  | .bool value => .bool value
  | .number value => .number value
  | .string value => .string value
  | .array items => .sequence (yamlOfJsonItems items)
  | .object members => .mapping (yamlOfJsonMembers members)

def yamlOfJsonItems : List Json.Value → List Yaml.Value
  | [] => []
  | item :: rest => yamlOfJson item :: yamlOfJsonItems rest

def yamlOfJsonMembers :
    List (String × Json.Value) → List (Yaml.Value × Yaml.Value)
  | [] => []
  | (name, value) :: rest =>
      (.string name, yamlOfJson value) :: yamlOfJsonMembers rest

end

/-- The key under which a date or time stands when it has to be a mapping. -/
def datetimeKey : String :=
  "$__toml_private_datetime"

def isTable : Toml.Value → Bool
  | .table _ => true
  | _ => false

/-- Where a member stands when a table is written out: plain values before
arrays of tables before tables. -/
def memberRank : Toml.Value → Nat
  | .table _ => 2
  | .array items => if items.any isTable then 1 else 0
  | _ => 0

/-- The entries with those of each rank together, the least first. -/
def byRank
    (entries : List (Nat × Yaml.Value × Yaml.Value)) :
    List (Yaml.Value × Yaml.Value) :=
  [0, 1, 2].flatMap fun rank => (entries.filter (·.1 = rank)).map (·.2)

mutual

def yamlOfToml : Toml.Value → Yaml.Value
  | .string value => .string value
  | .integer value => .number (.integer value)
  | .real value => .number (.real value)
  | .bool value => .bool value
  | .datetime value => .mapping [(.string datetimeKey, .string value.text)]
  | .array items => .sequence (yamlOfTomlItems items)
  | .table members => .mapping (byRank (yamlOfTomlMembers members))

def yamlOfTomlItems : List Toml.Value → List Yaml.Value
  | [] => []
  | item :: rest => yamlOfToml item :: yamlOfTomlItems rest

def yamlOfTomlMembers :
    List (String × Toml.Value) → List (Nat × Yaml.Value × Yaml.Value)
  | [] => []
  | (name, value) :: rest =>
      (memberRank value, .string name, yamlOfToml value) ::
        yamlOfTomlMembers rest

end

def toYaml : Document → Yaml.Value
  | .json value => yamlOfJson value
  | .yaml value => value
  | .toml value => yamlOfToml value
  | .text content => .string content

end Document

end ConfigTree
