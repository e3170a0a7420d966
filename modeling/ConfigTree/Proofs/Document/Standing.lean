import ConfigTree.Proofs.Document.Includes
import Mathlib.Logic.Relation

/-!
# What files stand for

A file stands for its own value with, in place of each include, what the
included file stands for. Nothing is said of the order in which files are read
or of those that are open, yet loading gives just that (`load_eq_ok_iff`), and
where it fails is known as well (`loadWithin_eq_error_iff`).
-/

namespace ConfigTree.FileSystem

open Document (fill includePath includes meaningOf substitute)

/-- A file includes another one by a name. -/
def Names (files : FileSystem) (file : Path) (name : String) : Prop :=
  ∃ value,
    files.readDocument file = .ok (.yaml value) ∧ .string name ∈ includes value

def Includes (files : FileSystem) (file target : Path) : Prop :=
  ∃ name, files.Names file name ∧ includePath file name = target

/-- The YAML value that a file stands for once everything it includes is put in.
A document in another format includes nothing and is converted. -/
inductive Stands (files : FileSystem) : Path → Yaml.Value → Prop where
  | expanded
      {file : Path}
      {value : Yaml.Value}
      (meaning : Yaml.Value → Yaml.Value)
      (read : files.readDocument file = .ok (.yaml value))
      (texts : ∀ content ∈ includes value, ∃ name, content = .string name)
      (stand :
        ∀ name,
          .string name ∈ includes value →
            Stands files (includePath file name) (meaning (.string name))) :
      Stands files file (fill meaning value)
  | converted {file : Path} {document : Document}
      (read : files.readDocument file = .ok document)
      (other : ∀ value, document ≠ .yaml value) :
      Stands files file document.toYaml

variable {files : FileSystem} {including : List Path} {file : Path}

theorem names_iff_of_readDocument
    {value : Yaml.Value} {name : String}
    (read : files.readDocument file = .ok (.yaml value)) :
    files.Names file name ↔ .string name ∈ includes value := by
  constructor
  · rintro ⟨other, again, member⟩
    rw [read] at again
    cases again
    exact member
  · exact fun member => ⟨value, read, member⟩

/-- Only YAML files include others. -/
theorem not_names_of_readDocument
    {document : Document}
    (read : files.readDocument file = .ok document)
    (other : ∀ value, document ≠ .yaml value) (name : String) :
    ¬ files.Names file name := by
  rintro ⟨value, again, _⟩
  rw [read] at again
  exact other value (Except.ok.inj again)

theorem Stands.unique
    {first : Yaml.Value} (stands : files.Stands file first) :
    ∀ {second : Yaml.Value}, files.Stands file second → first = second := by
  induction stands with
  | expanded meaning read texts _ inductionHypothesis =>
      intro second again
      cases again with
      | expanded other readAgain _ stand =>
          rw [read] at readAgain
          cases readAgain
          apply Document.fill_congr
          intro content member
          obtain ⟨name, rfl⟩ := texts content member
          exact inductionHypothesis name member (stand name member)
      | converted readAgain other =>
          rw [read] at readAgain
          cases readAgain
          exact absurd rfl (other _)
  | converted read other =>
      intro second again
      cases again with
      | expanded meaning readAgain _ _ =>
          rw [read] at readAgain
          cases readAgain
          exact absurd rfl (other _)
      | converted readAgain _ =>
          rw [read] at readAgain
          cases readAgain
          rfl

theorem Stands.no_includes
    {value : Yaml.Value} (stands : files.Stands file value) :
    includes value = [] := by
  induction stands with
  | expanded meaning _ texts _ inductionHypothesis =>
      rw [Document.includes_fill, List.flatMap_eq_nil_iff]
      intro content member
      obtain ⟨name, rfl⟩ := texts content member
      exact inductionHypothesis name member
  | converted _ other => exact Document.includes_toYaml other

/-- A file that stands for a value is not included from within itself. -/
theorem Stands.not_included_within
    {value : Yaml.Value} (stands : files.Stands file value) :
    ¬ Relation.TransGen files.Includes file file := by
  induction stands with
  | expanded meaning read _ _ inductionHypothesis =>
      intro cycle
      obtain ⟨target, step, back⟩ := Relation.TransGen.head'_iff.mp cycle
      obtain ⟨name, ⟨value, readAgain, member⟩, rfl⟩ := step
      have step : files.Includes _ (includePath _ name) :=
        ⟨name, ⟨value, readAgain, member⟩, rfl⟩
      rw [read] at readAgain
      cases readAgain
      exact inductionHypothesis name member (.tail' back step)
  | converted read other =>
      intro cycle
      obtain ⟨target, ⟨name, ⟨value, readAgain, _⟩, _⟩, _⟩ :=
        Relation.TransGen.head'_iff.mp cycle
      rw [read] at readAgain
      cases readAgain
      exact other value rfl

/-! ## One include -/

/-- What comes of the content of an include tag while the given files are being
put together. -/
def included
    (files : FileSystem) (including : List Path) (file : Path) :
    Yaml.Value → Except LoadFault Yaml.Value
  | .string name =>
    if listed : includePath file name ∈ file :: including then
      .error (.includeCycle (includePath file name))
    else
      (files.loadWithin (file :: including) (includePath file name) listed).map
        Document.toYaml
  | _ => .error (.includeOfNoPath file)

theorem loadWithin_of_yaml
    {value : Yaml.Value}
    (read : files.readDocument file = .ok (.yaml value))
    (fresh : file ∉ including) :
    files.loadWithin including file fresh =
      (substitute (files.included including file) value).map .yaml := by
  rw [loadWithin]
  split
  · rename_i again
    rw [read] at again
    cases again
    rfl
  · rename_i different
    exact absurd read (different value)

theorem loadWithin_of_not_yaml
    (other : ∀ value, files.readDocument file ≠ .ok (.yaml value))
    (fresh : file ∉ including) :
    files.loadWithin including file fresh = files.readDocument file := by
  rw [loadWithin]
  split
  · rename_i value read
    exact absurd read (other value)
  · rfl

theorem included_string_of_mem
    {name : String} (listed : includePath file name ∈ file :: including) :
    files.included including file (.string name) =
      .error (.includeCycle (includePath file name)) := by
  rw [included, dif_pos listed]

theorem included_string_of_not_mem
    {name : String} (listed : includePath file name ∉ file :: including) :
    files.included including file (.string name) =
      (files.loadWithin (file :: including) (includePath file name) listed).map
        Document.toYaml := by
  rw [included, dif_neg listed]

private theorem exists_string_of_included
    {content value : Yaml.Value}
    (found : files.included including file content = .ok value) :
    ∃ name, content = .string name := by
  cases content with
  | string name => exact ⟨name, rfl⟩
  | _ => cases found

/-- Each of the given files includes the file, directly or through others. -/
def LeadTo (files : FileSystem) (including : List Path) (file : Path) : Prop :=
  ∀ other ∈ including, Relation.TransGen files.Includes other file

theorem LeadTo.cons
    (leading : files.LeadTo including file)
    {target : Path}
    (step : files.Includes file target) :
    files.LeadTo (file :: including) target := by
  intro other member
  rcases List.mem_cons.mp member with rfl | among
  · exact .single step
  · exact (leading other among).tail step

/-! ## Loading -/

/-- What comes of an include is what the included file stands for, if that is so
of what is loaded inside. -/
theorem stands_of_included
    (inside :
      ∀ name (listed : includePath file name ∉ file :: including) document,
        files.loadWithin (file :: including) (includePath file name) listed =
          .ok document → files.Stands (includePath file name) document.toYaml)
    {name : String}
    {value : Yaml.Value}
    (found : files.included including file (.string name) = .ok value) :
    files.Stands (includePath file name) value := by
  by_cases listed : includePath file name ∈ file :: including
  · rw [included_string_of_mem listed] at found
    cases found
  · rw [included_string_of_not_mem listed] at found
    cases loaded :
        files.loadWithin (file :: including) (includePath file name) listed with
    | error fault =>
        rw [loaded] at found
        cases found
    | ok document =>
        rw [loaded] at found
        obtain rfl := Except.ok.inj found
        exact inside name listed document loaded

/-- What is loaded is what the file stands for. -/
theorem stands_of_loadWithin
    {including : List Path}
    {file : Path}
    {document : Document}
    (fresh : file ∉ including)
    (loaded : files.loadWithin including file fresh = .ok document) :
    files.Stands file document.toYaml := by
  by_cases other : ∀ value, files.readDocument file ≠ .ok (.yaml value)
  · rw [loadWithin_of_not_yaml other fresh] at loaded
    apply Stands.converted loaded
    intro value same
    subst same
    exact other value loaded
  · obtain ⟨value, read⟩ :
        ∃ value, files.readDocument file = .ok (.yaml value) := by
      simpa using other
    have smaller := Path.room_cons_lt (length_le_of_readDocument read) fresh
    have inside :=
      fun name (listed : includePath file name ∉ file :: including) document
        (loaded : files.loadWithin (file :: including) (includePath file name)
            listed = .ok document) =>
              stands_of_loadWithin listed loaded
    rw [loadWithin_of_yaml read fresh] at loaded
    cases whole : substitute (files.included including file) value with
    | error fault =>
        rw [whole] at loaded
        cases loaded
    | ok result =>
        rw [whole] at loaded
        obtain rfl := Except.ok.inj loaded
        obtain ⟨all, rfl⟩ := Document.substitute_eq_ok_iff.mp whole
        refine .expanded _ read ?_ ?_
        · intro content member
          obtain ⟨found, each⟩ := all content member
          exact exists_string_of_included each
        · intro name member
          obtain ⟨found, each⟩ := all (.string name) member
          rw [Document.meaningOf_eq each]
          exact stands_of_included inside each
termination_by Path.room pathLimit including

/-- A file that stands for a value is loaded with that value, whichever files
are open by way of including it. -/
theorem loadWithin_of_stands
    {value : Yaml.Value} (stands : files.Stands file value) :
    ∀ {including : List Path} (fresh : file ∉ including),
      files.LeadTo including file →
        ∃ document,
          files.loadWithin including file fresh = .ok document ∧
          document.toYaml = value := by
  induction stands with
  | @expanded file value meaning read texts stand inductionHypothesis =>
      intro including fresh leading
      have each :
          ∀ content ∈ includes value,
            files.included including file content = .ok (meaning content) := by
        intro content member
        obtain ⟨name, rfl⟩ := texts content member
        have step : files.Includes file (includePath file name) :=
          ⟨name, ⟨value, read, member⟩, rfl⟩
        have listed : includePath file name ∉ file :: including :=
          fun among =>
            (stand name member).not_included_within (leading.cons step _ among)
        obtain ⟨document, loaded, same⟩ :=
          inductionHypothesis name member listed (leading.cons step)
        rw [included_string_of_not_mem listed, loaded, ← same]
        rfl
      have whole :
          substitute (files.included including file) value =
            .ok (fill meaning value) := by
        apply Document.substitute_eq_ok_iff.mpr
        refine ⟨fun content member => ⟨_, each content member⟩, ?_⟩
        exact Document.fill_congr value fun content member =>
          Document.meaningOf_eq (each content member)
      exact ⟨_, by rw [loadWithin_of_yaml read fresh, whole]; rfl, rfl⟩
  | converted read other =>
      intro including fresh _
      refine ⟨_, ?_, rfl⟩
      rw [loadWithin_of_not_yaml ?_ fresh, read]
      intro value again
      rw [read] at again
      exact other value (Except.ok.inj again)

/-- What an include tag's content means in a file. -/
def Means
    (files : FileSystem) (file : Path) (content value : Yaml.Value) :
    Prop :=
  ∃ name, content = .string name ∧ files.Stands (includePath file name) value

/-- On the way through files that include one another, an include comes out as
what it means. -/
theorem included_eq_ok_iff
    {raw content value : Yaml.Value}
    (read : files.readDocument file = .ok (.yaml raw))
    (member : content ∈ includes raw)
    (leading : files.LeadTo including file) :
    files.included including file content = .ok value ↔
      files.Means file content value := by
  constructor
  · intro found
    obtain ⟨name, rfl⟩ := exists_string_of_included found
    exact ⟨name, rfl,
      stands_of_included
        (fun _ listed _ loaded => stands_of_loadWithin listed loaded) found⟩
  · intro means
    obtain ⟨name, rfl, stands⟩ := means
    have step : files.Includes file (includePath file name) :=
      ⟨name, ⟨raw, read, member⟩, rfl⟩
    have listed : includePath file name ∉ file :: including :=
      fun among => stands.not_included_within (leading.cons step _ among)
    obtain ⟨document, loaded, same⟩ :=
      loadWithin_of_stands stands listed (leading.cons step)
    rw [included_string_of_not_mem listed, loaded, ← same]
    rfl

end ConfigTree.FileSystem
