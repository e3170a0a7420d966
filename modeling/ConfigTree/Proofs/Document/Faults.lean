import ConfigTree.Proofs.Document.Standing

/-!
# Where loading fails

Loading goes through the includes of a file, and into each file that one of them
names. It fails at the first include that names no file, a file that cannot be
read or a file that is being put together (`loadWithin_eq_error_iff`).
-/

namespace ConfigTree.FileSystem

open Document (includePath includes substitute)

/-- Going through the includes of a file comes to one: those before it have a
meaning. -/
def Meets (files : FileSystem) (file : Path) (content : Yaml.Value) : Prop :=
  ∃ value before after, files.readDocument file = .ok (.yaml value) ∧
    includes value = before ++ content :: after ∧
      ∀ earlier ∈ before, ∃ meaning, files.Means file earlier meaning

/-- Loading a file comes to an include, of the file itself or of one on the way,
while so many files are being put together; the last file is the one that holds
the include. -/
inductive ComesTo
    (files : FileSystem) :
    List Path → Path → List Path → Path → Yaml.Value → Prop where
  | here {including : List Path} {file : Path} {content : Yaml.Value}
      (meets : files.Meets file content) :
      ComesTo files including file including file content
  | inside
      {including deeper : List Path}
      {file last : Path}
      {name : String}
      {content : Yaml.Value}
      (meets : files.Meets file (.string name))
      (fresh : includePath file name ∉ file :: including)
      (within :
        ComesTo files (file :: including) (includePath file name) deeper last
          content) :
      ComesTo files including file deeper last content

/-- What an include fails with by itself, before anything that the included file
includes is looked at. -/
def faultAt?
    (files : FileSystem) (including : List Path) (file : Path) :
    Yaml.Value → Option LoadFault
  | .string name =>
    if includePath file name ∈ file :: including then
      some (.includeCycle (includePath file name))
    else
      match files.readDocument (includePath file name) with
      | .error fault => some fault
      | .ok _ => none
  | _ => some (.includeOfNoPath file)

variable {files : FileSystem} {including : List Path} {file : Path}

private theorem readDocument_ne_includeCycle
    {cycle : Path} :
    files.readDocument file ≠ .error (.includeCycle cycle) := by
  unfold readDocument
  split
  · simp
  · split
    · simp
    · split
      · simp
      · simp

theorem Meets.includes
    {name : String} (meets : files.Meets file (.string name)) :
    files.Includes file (includePath file name) := by
  obtain ⟨value, before, after, read, split, _⟩ := meets
  refine ⟨name, ⟨value, read, ?_⟩, rfl⟩
  rw [split]
  exact List.mem_append_right _ (List.mem_cons_self ..)

theorem not_yaml_of_readDocument
    {fault : LoadFault}
    (failed : files.readDocument file = .error fault)
    (value : Yaml.Value) :
    files.readDocument file ≠ .ok (.yaml value) := by
  rw [failed]
  exact fun same => nomatch same

private theorem included_of_faultAt
    {content : Yaml.Value}
    {fault : LoadFault}
    (failing : files.faultAt? including file content = some fault) :
    files.included including file content = .error fault := by
  cases content with
  | string name =>
      by_cases listed : includePath file name ∈ file :: including
      · rw [faultAt?, if_pos listed] at failing
        rw [included_string_of_mem listed, Option.some.inj failing]
      · rw [faultAt?, if_neg listed] at failing
        cases read : files.readDocument (includePath file name) with
        | error other =>
            rw [read] at failing
            rw [included_string_of_not_mem listed,
              loadWithin_of_not_yaml (not_yaml_of_readDocument read), read,
              Option.some.inj failing]
            rfl
        | ok document =>
            rw [read] at failing
            cases failing
  | _ =>
      obtain rfl := Option.some.inj failing
      rfl

/-- An include that fails keeps its file from being loaded, when loading comes
to it. -/
theorem loadWithin_of_meets
    {content : Yaml.Value}
    {fault : LoadFault}
    (fresh : file ∉ including)
    (leading : files.LeadTo including file)
    (meets : files.Meets file content)
    (failed : files.included including file content = .error fault) :
    files.loadWithin including file fresh = .error fault := by
  obtain ⟨value, before, after, read, split, earlier⟩ := meets
  have whole :
      substitute (files.included including file) value = .error fault := by
    refine Document.substitute_eq_error_iff.mpr
      ⟨before, content, after, split, ?_, failed⟩
    intro other member
    obtain ⟨meaning, means⟩ := earlier other member
    have among : other ∈ includes value := by
      rw [split]
      exact List.mem_append_left _ member
    exact ⟨meaning, (included_eq_ok_iff read among leading).mpr means⟩
  rw [loadWithin_of_yaml read fresh, whole]
  rfl

private theorem loadWithin_of_comesTo
    {deeper : List Path}
    {last : Path}
    {content : Yaml.Value}
    {fault : LoadFault}
    (comes : files.ComesTo including file deeper last content)
    (failing : files.faultAt? deeper last content = some fault) :
    ∀ fresh : file ∉ including, files.LeadTo including file →
      files.loadWithin including file fresh = .error fault := by
  induction comes with
  | here meets =>
      intro fresh leading
      exact
        loadWithin_of_meets fresh leading meets (included_of_faultAt failing)
  | inside meets listed _ inductionHypothesis =>
      intro fresh leading
      apply loadWithin_of_meets fresh leading meets
      rw [included_string_of_not_mem listed,
        inductionHypothesis failing listed (leading.cons meets.includes)]
      rfl

private theorem exists_meets_of_loadWithin
    {value : Yaml.Value}
    {fault : LoadFault}
    (read : files.readDocument file = .ok (.yaml value))
    (fresh : file ∉ including) (leading : files.LeadTo including file)
    (failed : files.loadWithin including file fresh = .error fault) :
    ∃ content,
      files.Meets file content ∧
      files.included including file content = .error fault := by
  have whole :
      substitute (files.included including file) value = .error fault := by
    rw [loadWithin_of_yaml read fresh] at failed
    cases ended : substitute (files.included including file) value with
    | error other =>
        rw [ended] at failed
        exact congrArg Except.error (Except.error.inj failed)
    | ok result =>
        rw [ended] at failed
        cases failed
  obtain ⟨before, content, after, split, earlier, ended⟩ :=
    Document.substitute_eq_error_iff.mp whole
  refine ⟨content, ⟨value, before, after, read, split, ?_⟩, ended⟩
  intro other member
  obtain ⟨meaning, found⟩ := earlier other member
  have among : other ∈ includes value := by
    rw [split]
    exact List.mem_append_left _ member
  exact ⟨meaning, (included_eq_ok_iff read among leading).mp found⟩

private theorem exists_comesTo_of_loadWithin
    {including : List Path}
    {file : Path}
    {value : Yaml.Value}
    {fault : LoadFault}
    (read : files.readDocument file = .ok (.yaml value))
    (fresh : file ∉ including)
    (leading : files.LeadTo including file)
    (failed : files.loadWithin including file fresh = .error fault) :
    ∃ deeper last content, files.ComesTo including file deeper last content ∧
      files.faultAt? deeper last content = some fault := by
  have smaller := Path.room_cons_lt (length_le_of_readDocument read) fresh
  obtain ⟨content, meets, ended⟩ :=
    exists_meets_of_loadWithin read fresh leading failed
  cases content with
  | string name =>
      by_cases listed : includePath file name ∈ file :: including
      · rw [included_string_of_mem listed] at ended
        obtain rfl := Except.error.inj ended
        exact ⟨including, file, .string name, .here meets,
          by rw [faultAt?, if_pos listed]⟩
      · rw [included_string_of_not_mem listed] at ended
        cases inner :
            files.loadWithin (file :: including) (includePath file name)
              listed with
        | ok document =>
            rw [inner] at ended
            cases ended
        | error other =>
            rw [inner] at ended
            obtain rfl := Except.error.inj ended
            by_cases plain :
              ∀ value,
                files.readDocument (includePath file name) ≠ .ok (.yaml value)
            · rw [loadWithin_of_not_yaml plain] at inner
              exact ⟨including, file, .string name, .here meets,
                by rw [faultAt?, if_neg listed, inner]⟩
            · obtain ⟨target, readTarget⟩ :
                  ∃ target,
                    files.readDocument (includePath file name) =
                      .ok (.yaml target) := by
                simpa using plain
              obtain ⟨deeper, last, content, comes, failing⟩ :=
                exists_comesTo_of_loadWithin readTarget listed
                  (leading.cons meets.includes) inner
              exact ⟨deeper, last, content, .inside meets listed comes, failing⟩
  | _ =>
      obtain rfl := Except.error.inj ended
      exact ⟨including, file, _, .here meets, rfl⟩
termination_by Path.room pathLimit including

/-- A file that is no YAML file fails to load if it cannot be read, a YAML file
at the first of its includes, also those in the files on the way, that fails by
itself. -/
theorem loadWithin_eq_error_iff
    {fault : LoadFault}
    (fresh : file ∉ including)
    (leading : files.LeadTo including file) :
    files.loadWithin including file fresh = .error fault ↔
      files.readDocument file = .error fault ∨
        ∃ deeper last content,
          files.ComesTo including file deeper last content ∧
          files.faultAt? deeper last content = some fault := by
  constructor
  · intro failed
    by_cases plain : ∀ value, files.readDocument file ≠ .ok (.yaml value)
    · rw [loadWithin_of_not_yaml plain] at failed
      exact Or.inl failed
    · obtain ⟨value, read⟩ :
          ∃ value, files.readDocument file = .ok (.yaml value) := by
        simpa using plain
      exact Or.inr (exists_comesTo_of_loadWithin read fresh leading failed)
  · intro either
    rcases either with unread | ⟨deeper, last, content, comes, failing⟩
    · rw [loadWithin_of_not_yaml (not_yaml_of_readDocument unread), unread]
    · exact loadWithin_of_comesTo comes failing fresh leading

/-! ## Cycles -/

private theorem faultAt_eq_includeCycle_iff
    {content : Yaml.Value} {target : Path} :
    files.faultAt? including file content = some (.includeCycle target) ↔
      ∃ name,
        content = .string name ∧ includePath file name = target ∧
        target ∈ file :: including := by
  cases content with
  | string name =>
      by_cases listed : includePath file name ∈ file :: including
      · rw [faultAt?, if_pos listed]
        constructor
        · intro same
          cases same
          exact ⟨name, rfl, rfl, listed⟩
        · intro given
          obtain ⟨other, same, rfl, _⟩ := given
          cases same
          rfl
      · rw [faultAt?, if_neg listed]
        constructor
        · intro same
          split at same
          · rename_i fault unread
            rw [Option.some.inj same] at unread
            exact absurd unread readDocument_ne_includeCycle
          · cases same
        · intro given
          obtain ⟨other, same, rfl, among⟩ := given
          cases same
          exact absurd among listed
  | _ => simp [faultAt?]

/-- Loading fails with a cycle exactly when it comes to an include of a file
that is being put together. -/
theorem loadWithin_eq_includeCycle_iff
    {target : Path}
    (fresh : file ∉ including)
    (leading : files.LeadTo including file) :
    files.loadWithin including file fresh = .error (.includeCycle target) ↔
      ∃ deeper last name,
        files.ComesTo including file deeper last (.string name) ∧
        includePath last name = target ∧ target ∈ last :: deeper := by
  rw [loadWithin_eq_error_iff fresh leading]
  constructor
  · intro either
    rcases either with unread | ⟨deeper, last, content, comes, failing⟩
    · exact absurd unread readDocument_ne_includeCycle
    · obtain ⟨name, rfl, same, among⟩ := faultAt_eq_includeCycle_iff.mp failing
      exact ⟨deeper, last, name, comes, same, among⟩
  · intro given
    obtain ⟨deeper, last, name, comes, same, among⟩ := given
    exact Or.inr
      ⟨deeper, last, .string name, comes,
        faultAt_eq_includeCycle_iff.mpr ⟨name, rfl, same, among⟩⟩

/-- The files that are being put together are different ones. -/
theorem nodup_of_comesTo
    {deeper : List Path} {last : Path} {content : Yaml.Value}
    (comes : files.ComesTo including file deeper last content) :
    (file :: including).Nodup → (last :: deeper).Nodup := by
  induction comes with
  | here meets => exact id
  | inside meets fresh _ inductionHypothesis =>
      intro distinct
      exact inductionHypothesis (List.nodup_cons.mpr ⟨fresh, distinct⟩)

/-! ## The end of includes -/

/-- There is no endless way through files, each included by the one before it
and none twice. -/
inductive IncludesEnd (files : FileSystem) : List Path → Path → Prop where
  | intro {including : List Path} {file : Path}
      (inside :
        ∀ target,
          files.Includes file target → target ∉ file :: including →
            IncludesEnd files (file :: including) target) :
      IncludesEnd files including file

theorem includesEnd
    (files : FileSystem)
    (including : List Path)
    (file : Path)
    (fresh : file ∉ including) :
    files.IncludesEnd including file := by
  constructor
  intro target step freshTarget
  obtain ⟨name, ⟨value, read, _⟩, _⟩ := step
  have smaller := Path.room_cons_lt (length_le_of_readDocument read) fresh
  exact includesEnd files (file :: including) target freshTarget
termination_by Path.room pathLimit including

end ConfigTree.FileSystem
