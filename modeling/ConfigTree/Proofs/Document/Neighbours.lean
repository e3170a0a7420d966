import ConfigTree.Proofs.Document.Alike
import ConfigTree.Proofs.Path.Children
import ConfigTree.Proofs.Path.Joining

/-!
# Neighbours in a directory

A YAML file can refer to a neighbour or include it. Main statements: a file is
loaded with its own value where each include is what the included file gives by
itself (`load_eq_fill`), from one directory a name means the same to all files
(`byItself_of_parent`), and a neighbour holds the same tree for both
(`IsNeighbour.readTarget_eq`). A name of one segment finds its neighbour unless
it starts with a drive (`isNeighbour_of_name`).
-/

namespace ConfigTree

/-! ## Names of one segment -/

namespace Document

/-- A name of one segment is a drive exactly if it starts with one byte and a
colon. -/
theorem isDrive_iff_of_name
    {name : String} (proper : IsEntryName name) (plain : '\\' ∉ name.toList) :
    IsDrive name ↔ Path.startsWithDrive name = true := by
  rw [IsDrive, Path.text_ofText_name proper plain]
  exact and_iff_right (Path.anchor_ofText_name proper plain)

/-! ## Values that differ in references and includes -/

mutual

/-- Two values differ only in that where a value stands one of them refers to a
file by one of the given names and the other one includes it. -/
inductive Swaps (near : String → Prop) : Yaml.Value → Yaml.Value → Prop where
  | same (value : Yaml.Value) : Swaps near value value
  | included {name : String} (given : near name) :
      Swaps near (.string ("./" ++ name)) (.tagged includeTag (.string name))
  | referred {name : String} (given : near name) :
      Swaps near (.tagged includeTag (.string name)) (.string ("./" ++ name))
  | tagged
      {tag : String}
      {value other : Yaml.Value}
      (kept : tag ≠ includeTag)
      (inner : Swaps near value other) :
      Swaps near (.tagged tag value) (.tagged tag other)
  | sequence
      {items others : List Yaml.Value} (inner : SwapsItems near items others) :
      Swaps near (.sequence items) (.sequence others)
  | mapping
      {entries others : List (Yaml.Value × Yaml.Value)}
      (inner : SwapsEntries near entries others) :
      Swaps near (.mapping entries) (.mapping others)

inductive SwapsItems
    (near : String → Prop) :
    List Yaml.Value → List Yaml.Value → Prop where
  | nil : SwapsItems near [] []
  | cons
      {item other : Yaml.Value}
      {rest others : List Yaml.Value}
      (first : Swaps near item other)
      (later : SwapsItems near rest others) :
      SwapsItems near (item :: rest) (other :: others)

inductive SwapsEntries (near : String → Prop) :
    List (Yaml.Value × Yaml.Value) → List (Yaml.Value × Yaml.Value) → Prop where
  | nil : SwapsEntries near [] []
  | cons
      (key : Yaml.Value)
      {value other : Yaml.Value}
      {rest others : List (Yaml.Value × Yaml.Value)}
      (first : Swaps near value other)
      (later : SwapsEntries near rest others) :
      SwapsEntries near ((key, value) :: rest) ((key, other) :: others)

end

end Document

/-! ## Trees of YAML values, part by part -/

namespace Node

theorem ofYaml_sequence_eq_ok_iff {items : List Yaml.Value} {tree : Node} :
    ofYaml (.sequence items) = .ok tree ↔
      ∃ nodes, ofYamlItems items = .ok nodes ∧ .sequence nodes = tree := by
  rw [ofYaml]
  cases ofYamlItems items with
  | error duplicate => simp
  | ok nodes => simp

theorem ofYaml_mapping_eq_ok_iff
    {entries : List (Yaml.Value × Yaml.Value)} {tree : Node} :
    ofYaml (.mapping entries) = .ok tree ↔
      ∃ pairs,
        ofYamlEntries [] entries = .ok pairs ∧ .mapping pairs = tree := by
  rw [ofYaml]
  cases ofYamlEntries [] entries with
  | error duplicate => simp
  | ok pairs => simp

theorem ofYamlItems_cons_eq_ok_iff
    {item : Yaml.Value} {rest : List Yaml.Value} {nodes : List Node} :
    ofYamlItems (item :: rest) = .ok nodes ↔
      ∃ node others,
        ofYaml item = .ok node ∧ ofYamlItems rest = .ok others ∧
        node :: others = nodes := by
  rw [ofYamlItems]
  cases ofYaml item with
  | error duplicate => simp
  | ok node =>
      cases ofYamlItems rest with
      | error duplicate => simp
      | ok others => simp

theorem ofYamlEntries_cons_eq_ok_iff
    {before : List String}
    {key value : Yaml.Value}
    {rest : List (Yaml.Value × Yaml.Value)}
    {pairs : List (String × Node)} :
    ofYamlEntries before ((key, value) :: rest) = .ok pairs ↔
      keyText key ∉ before ∧ ∃ node others, ofYaml value = .ok node ∧
        ofYamlEntries (keyText key :: before) rest = .ok others ∧
          (keyText key, node) :: others = pairs := by
  rw [ofYamlEntries]
  by_cases old : keyText key ∈ before
  · simp [old]
  · cases ofYaml value with
    | error duplicate => simp [old]
    | ok node =>
        cases ofYamlEntries (keyText key :: before) rest with
        | error duplicate => simp [old]
        | ok others => simp [old]

end Node

/-! ## What is included -/

namespace FileSystem

variable {files : FileSystem}

/-- What the content of an include tag stands for in a file: what the included
file is loaded with by itself. -/
def byItself (files : FileSystem) (file : Path) : Yaml.Value → Yaml.Value
  | .string name =>
    match files.load (Document.includePath file name) with
    | .ok document => document.toYaml
    | .error _ => .null
  | content => content

private theorem byItself_of_load
    {file : Path} {name : String} {document : Document}
    (loaded : files.load (Document.includePath file name) = .ok document) :
    files.byItself file (.string name) = document.toYaml := by
  simp only [byItself, loaded]

/-- A file is loaded with its own value where each include is what the included
file gives by itself. -/
theorem load_eq_fill
    {path : Path}
    {value : Yaml.Value}
    {document : Document}
    (read : files.readDocument path = .ok (.yaml value))
    (loaded : files.load path = .ok document) :
    document = .yaml (Document.fill (files.byItself path) value) := by
  obtain ⟨result, rfl, stands⟩ := (load_of_yaml read).mp loaded
  cases stands with
  | expanded meaning readAgain texts stand =>
      rw [read] at readAgain
      cases readAgain
      refine congrArg Document.yaml (Document.fill_congr value ?_)
      intro content member
      obtain ⟨name, rfl⟩ := texts content member
      obtain ⟨other, loadedInside, same⟩ :=
        loadWithin_of_stands (stand name member) List.not_mem_nil
          (leadTo_nil (Document.includePath path name))
      rw [byItself_of_load loadedInside, same]
  | converted readAgain other =>
      rw [read] at readAgain
      cases readAgain
      exact absurd rfl (other value)

/-- A name means the same to all files of a directory. -/
theorem byItself_of_parent
    {path other : Path} (same : other.parent? = path.parent?) :
    files.byItself other = files.byItself path := by
  have paths :
      ∀ name,
        Document.includePath other name = Document.includePath path name := by
    intro name
    rw [Document.includePath, same]
    rfl
  funext content
  cases content with
  | string name => simp only [byItself, paths]
  | _ => rfl

/-- A name by which a directory finds a JSON or YAML file right in it that holds
a mapping or a sequence. -/
structure IsNeighbour
    (files : FileSystem) (directory : Path) (name : String) : Prop where
  /-- The name does not start at the root. -/
  relative : (Path.ofText name).anchor = .relative
  driveless : ¬ Document.IsDrive name
  inside : (directory.join name).parent? = some directory
  isFile : files.kind (directory.join name).text = .ok .file
  content :
    ∃ document,
      files.load (directory.join name) = .ok document ∧
      document.isComposite = true ∧
      (document.format? = some .json ∨ document.format? = some .yaml)

variable {directory : Path} {name : String}

private theorem IsNeighbour.includePath_eq
    (neighbour : files.IsNeighbour directory name)
    {file : Path}
    (above : file.parent? = some directory) :
    Document.includePath file name = directory.join name := by
  rw [Document.includePath_eq_seenFrom above neighbour.driveless]
  exact if_pos neighbour.relative

theorem isNeighbour_of_name
    {document : Document}
    (rooted : directory.anchor ≠ .relative)
    (notShare : directory ≠ Path.ofAnchor .share)
    (proper : IsEntryName name)
    (plain : '\\' ∉ name.toList)
    (driveless : Path.startsWithDrive name = false)
    (isFile : files.kind (directory.join name).text = .ok .file)
    (loaded : files.load (directory.join name) = .ok document)
    (composite : document.isComposite = true)
    (format : document.format? = some .json ∨ document.format? = some .yaml) :
    files.IsNeighbour directory name where
  relative := Path.anchor_ofText_name proper plain
  driveless := by
    rw [Document.isDrive_iff_of_name proper plain, driveless]
    exact Bool.false_ne_true
  inside := Path.parent?_join_name rooted notShare proper plain
  isFile := isFile
  content := ⟨document, loaded, composite, format⟩

/-- Included or referred to, a neighbour holds the same tree. -/
theorem IsNeighbour.readTarget_eq
    (neighbour : files.IsNeighbour directory name)
    {file : Path} {content : Node} (above : file.parent? = some directory)
    (converted :
      Node.ofYaml (files.byItself file (.string name)) = .ok content) :
    Setting.readTarget files (directory.join name) = .ok (content, true) := by
  obtain ⟨document, loaded, composite, format⟩ := neighbour.content
  have included : files.byItself file (.string name) = document.toYaml := by
    apply byItself_of_load
    rw [neighbour.includePath_eq above, loaded]
  rw [included] at converted
  apply Setting.readTarget_eq_ok_iff.mpr
  refine ⟨document, loaded, ?_, composite⟩
  cases document with
  | json value =>
      have proper : value.IsProper := isProper_of_load loaded
      rw [Document.toYaml, Node.ofYaml_yamlOfJson value proper] at converted
      exact converted
  | yaml value => exact converted
  | toml value => simp [Document.format?] at format
  | text content => cases composite

end FileSystem

end ConfigTree
