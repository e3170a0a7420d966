import ConfigTree.Path.Basic

/-!
# Formats of documents

A file's extension tells its format, in whatever case it is written.
-/

namespace ConfigTree

inductive Format where
  | json
  | yaml
  | toml
deriving DecidableEq, Repr, Inhabited

namespace Format

def name : Format → String
  | .json => "JSON"
  | .yaml => "YAML"
  | .toml => "TOML"

def ofExtension? (extension : String) : Option Format :=
  match String.ofList (extension.toList.map Char.toLower) with
  | "json" => some .json
  | "yaml" | "yml" => some .yaml
  | "toml" => some .toml
  | _ => none

def ofPath? (path : Path) : Option Format :=
  path.extension?.bind ofExtension?

end Format

end ConfigTree
