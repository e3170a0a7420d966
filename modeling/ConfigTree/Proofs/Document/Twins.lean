import ConfigTree.Proofs.Document.Expansion

/-!
# Files that load alike

Loading a file ends in one of three ways: with what the file stands for, at an
include that breaks whichever files are open, or at one of a file that is open
already. Two paths whose texts read alike and whose includes lead to such paths
again load alike (`load_of_twins`), though other paths may be open on the way.
-/

namespace ConfigTree

/-- What a load fault says without the paths in it. -/
inductive FaultKind where
  | obstacle (what : Obstacle)
  | unreadable (format : Format)
  | unknownFormat (extension : String)
  | includeOfNoPath
  | includeCycle
deriving DecidableEq

def LoadFault.kind : LoadFault → FaultKind
  | .obstacle _ what => .obstacle what
  | .unreadable format _ => .unreadable format
  | .unknownFormat extension => .unknownFormat extension
  | .includeOfNoPath _ => .includeOfNoPath
  | .includeCycle _ => .includeCycle

theorem LoadFault.kind_eq_includeCycle_iff {fault : LoadFault} :
    fault.kind = .includeCycle ↔ ∃ path, fault = .includeCycle path := by
  cases fault <;> simp [kind]

namespace FileSystem

open Document (fill includePath includes)

/-- Loading the file goes on to the target. -/
def Follows (files : FileSystem) (file target : Path) : Prop :=
  ∃ name, files.Meets file (.string name) ∧ includePath file name = target

/-- Loading the file fails whichever files are open, by a fault of such a kind:
at the first include, also of the files on the way, that is of no path or of one
that cannot be read. -/
inductive Breaks (files : FileSystem) : Path → FaultKind → Prop where
  | unread
      {file : Path}
      {fault : LoadFault}
      (failed : files.readDocument file = .error fault) :
      Breaks files file fault.kind
  | noPath
      {file : Path}
      {content : Yaml.Value}
      (meets : files.Meets file content)
      (other : ∀ name, content ≠ .string name) :
      Breaks files file .includeOfNoPath
  | inside
      {file : Path}
      {name : String}
      {kind : FaultKind}
      (meets : files.Meets file (.string name))
      (within : Breaks files (includePath file name) kind) :
      Breaks files file kind

variable {files : FileSystem} {including : List Path} {file : Path}
  {kind : FaultKind}

private theorem Follows.includes
    {target : Path} (follows : files.Follows file target) :
    files.Includes file target := by
  obtain ⟨name, meets, rfl⟩ := follows
  exact meets.includes

private theorem transGen_includes
    {other : Path} (leads : Relation.TransGen files.Follows other file) :
    Relation.TransGen files.Includes other file :=
  Relation.TransGen.mono
    (fun _ _ (follows : files.Follows _ _) => follows.includes) _ _ leads

private theorem Meets.exists_yaml
    {content : Yaml.Value} (meets : files.Meets file content) :
    ∃ value,
      files.readDocument file = .ok (.yaml value) ∧
      content ∈ Document.includes value := by
  obtain ⟨value, before, after, read, split, _⟩ := meets
  refine ⟨value, read, ?_⟩
  rw [split]
  exact List.mem_append_right _ (List.mem_cons_self ..)

/-- Of two includes that loading may come to, the earlier one has a meaning. -/
theorem Meets.compare
    {content other : Yaml.Value}
    (meets : files.Meets file content)
    (meetsOther : files.Meets file other) :
    content = other ∨ (∃ meaning, files.Means file content meaning) ∨
      ∃ meaning, files.Means file other meaning := by
  obtain ⟨value, before, after, read, split, earlier⟩ := meets
  obtain ⟨again, beforeOther, afterOther, readAgain, splitOther,
      earlierOther⟩ :=
    meetsOther
  rw [read] at readAgain
  cases readAgain
  rw [split] at splitOther
  rcases List.append_eq_append_iff.mp splitOther with
    ⟨between, grown, rest⟩ | ⟨between, grown, rest⟩
  · cases between with
    | nil => exact Or.inl (List.cons.inj rest).1
    | cons first later =>
        obtain ⟨rfl, _⟩ := List.cons.inj rest
        have among : content ∈ beforeOther :=
          grown ▸ List.mem_append_right _ (List.mem_cons_self ..)
        exact Or.inr (Or.inl (earlierOther content among))
  · cases between with
    | nil => exact Or.inl (List.cons.inj rest).1.symm
    | cons first later =>
        obtain ⟨rfl, _⟩ := List.cons.inj rest
        have among : other ∈ before :=
          grown ▸ List.mem_append_right _ (List.mem_cons_self ..)
        exact Or.inr (Or.inr (earlier other among))

/-- In a file that stands for a value, every include that loading comes to has a
meaning. -/
theorem Meets.exists_means
    {content value : Yaml.Value}
    (meets : files.Meets file content)
    (stands : files.Stands file value) :
    ∃ meaning, files.Means file content meaning := by
  obtain ⟨raw, read, member⟩ := meets.exists_yaml
  cases stands with
  | expanded meaning again texts stand =>
      rw [read] at again
      cases again
      obtain ⟨name, rfl⟩ := texts _ member
      exact ⟨_, name, rfl, stand name member⟩
  | converted again plain =>
      rw [read] at again
      cases again
      exact absurd rfl (plain raw)

/-! ## Files that break -/

private theorem Breaks.not_stands
    (breaks : files.Breaks file kind) :
    ∀ value, ¬ files.Stands file value := by
  induction breaks with
  | unread failed =>
      intro value stands
      cases stands with
      | expanded _ read _ _ =>
          rw [failed] at read
          cases read
      | converted read _ =>
          rw [failed] at read
          cases read
  | noPath meets other =>
      intro value stands
      obtain ⟨_, name, same, _⟩ := meets.exists_means stands
      exact other name same
  | inside meets _ inductionHypothesis =>
      intro value stands
      obtain ⟨meaning, name, same, inner⟩ := meets.exists_means stands
      cases same
      exact inductionHypothesis meaning inner

/-- An include that has a meaning does not lead back to its file. -/
theorem not_followed_of_means
    {name : String}
    {meaning : Yaml.Value}
    (means : files.Means file (.string name) meaning)
    (meets : files.Meets file (.string name)) :
    ¬ Relation.ReflTransGen files.Follows (includePath file name) file := by
  intro back
  obtain ⟨own, same, stands⟩ := means
  cases same
  have cycle :
      Relation.TransGen files.Follows (includePath file name)
        (includePath file name) :=
    .tail' back ⟨name, meets, rfl⟩
  exact stands.not_included_within (transGen_includes cycle)

/-- Loading a file that breaks does not come back to it. -/
theorem Breaks.not_followed_within
    (breaks : files.Breaks file kind) :
    ¬ Relation.TransGen files.Follows file file := by
  induction breaks with
  | unread failed =>
      intro cycle
      obtain ⟨target, ⟨name, meets, _⟩, _⟩ :=
        Relation.TransGen.head'_iff.mp cycle
      obtain ⟨raw, read, _⟩ := meets.exists_yaml
      rw [failed] at read
      cases read
  | noPath meets other =>
      intro cycle
      obtain ⟨target, ⟨name, meetsName, rfl⟩, back⟩ :=
        Relation.TransGen.head'_iff.mp cycle
      rcases meets.compare meetsName with
        same | ⟨meaning, own, same, _⟩ | ⟨meaning, means⟩
      · exact other name same
      · exact other own same
      · exact not_followed_of_means means meetsName back
  | @inside file first kind meets within inductionHypothesis =>
      intro cycle
      obtain ⟨target, ⟨name, meetsName, rfl⟩, back⟩ :=
        Relation.TransGen.head'_iff.mp cycle
      rcases meets.compare meetsName with
        same | ⟨meaning, own, same, stands⟩ | ⟨meaning, means⟩
      · cases same
        exact inductionHypothesis (.tail' back ⟨first, meets, rfl⟩)
      · cases same
        exact within.not_stands meaning stands
      · exact not_followed_of_means means meetsName back

/-- A file that breaks does so while files are open that loading has come
through. -/
theorem loadWithin_of_breaks
    (breaks : files.Breaks file kind) :
    ∀ {including : List Path} (fresh : file ∉ including),
      (∀ other ∈ including, Relation.TransGen files.Follows other file) →
        ∃ fault,
          files.loadWithin including file fresh = .error fault ∧
          fault.kind = kind := by
  induction breaks with
  | unread failed =>
      intro including fresh _
      refine ⟨_, ?_, rfl⟩
      rw [loadWithin_of_not_yaml (not_yaml_of_readDocument failed), failed]
  | @noPath file content meets other =>
      intro including fresh through
      have leading : files.LeadTo including file :=
        fun other member => transGen_includes (through other member)
      have failed :
          files.included including file content =
            .error (.includeOfNoPath file) := by
        cases content with
        | string name => exact absurd rfl (other name)
        | _ => rfl
      exact ⟨_, loadWithin_of_meets fresh leading meets failed, rfl⟩
  | @inside file name kind meets within inductionHypothesis =>
      intro including fresh through
      have step : files.Follows file (includePath file name) :=
        ⟨name, meets, rfl⟩
      have throughHere :
          ∀ other ∈ file :: including,
            Relation.TransGen files.Follows other (includePath file name) := by
        intro other member
        rcases List.mem_cons.mp member with rfl | among
        · exact .single step
        · exact (through other among).tail step
      have listed : includePath file name ∉ file :: including :=
        fun among => within.not_followed_within (throughHere _ among)
      obtain ⟨fault, loaded, same⟩ := inductionHypothesis listed throughHere
      have leading : files.LeadTo including file :=
        fun other member => transGen_includes (through other member)
      have failed :
          files.included including file (.string name) = .error fault := by
        rw [included_string_of_not_mem listed, loaded]
        rfl
      exact ⟨fault, loadWithin_of_meets fresh leading meets failed, same⟩

private theorem breaks_of_comesTo
    {deeper : List Path}
    {last : Path}
    {content : Yaml.Value}
    {fault : LoadFault}
    (comes : files.ComesTo including file deeper last content)
    (failing : files.faultAt? deeper last content = some fault)
    (open? : ∀ path, fault ≠ .includeCycle path) :
    files.Breaks file fault.kind := by
  induction comes with
  | @here including file content meets =>
      cases content with
      | string name =>
          by_cases listed : includePath file name ∈ file :: including
          · rw [faultAt?, if_pos listed] at failing
            exact absurd (Option.some.inj failing).symm (open? _)
          · rw [faultAt?, if_neg listed] at failing
            cases read : files.readDocument (includePath file name) with
            | error other =>
                rw [read] at failing
                obtain rfl := Option.some.inj failing
                exact .inside meets (.unread read)
            | ok document =>
                rw [read] at failing
                cases failing
      | _ =>
          obtain rfl := Option.some.inj failing
          exact .noPath meets fun _ => Yaml.Value.noConfusion
  | inside meets _ _ inductionHypothesis =>
      exact .inside meets (inductionHypothesis failing)

/-- Where loading fails, the file breaks or is included from within itself. -/
theorem breaks_of_load
    {fault : LoadFault} (failed : files.load file = .error fault) :
    fault.kind = .includeCycle ∨ files.Breaks file fault.kind := by
  by_cases cycle : fault.kind = .includeCycle
  · exact Or.inl cycle
  · right
    have open? : ∀ path, fault ≠ .includeCycle path :=
      fun path same =>
        cycle (LoadFault.kind_eq_includeCycle_iff.mpr ⟨path, same⟩)
    rcases (loadWithin_eq_error_iff List.not_mem_nil (leadTo_nil file)).mp
        failed with
      unread | ⟨deeper, last, content, comes, failing⟩
    · exact .unread unread
    · exact breaks_of_comesTo comes failing open?

theorem exists_load_of_breaks
    (breaks : files.Breaks file kind) :
    ∃ fault, files.load file = .error fault ∧ fault.kind = kind :=
  loadWithin_of_breaks breaks List.not_mem_nil fun _ member =>
    absurd member List.not_mem_nil

/-! ## Twins -/

/-- Two paths read alike: they hold the same document, or reading them fails
alike. -/
def ReadAlike (files : FileSystem) (file other : Path) : Prop :=
  (files.readDocument file).mapError LoadFault.kind =
    (files.readDocument other).mapError LoadFault.kind

/-- Twins read alike, and what one includes is a twin of what the other includes
by the same name. -/
structure IsTwinning
    (files : FileSystem) (twin : Path → Path → Prop) : Prop where
  alike : ∀ {file other}, twin file other → files.ReadAlike file other
  inside : ∀ {file other name}, twin file other → files.Names file name →
    twin (includePath file name) (includePath other name)

theorem ReadAlike.symm
    {other : Path} (alike : files.ReadAlike file other) :
    files.ReadAlike other file :=
  Eq.symm alike

theorem ReadAlike.read_ok
    {other : Path} {document : Document} (alike : files.ReadAlike file other)
    (read : files.readDocument file = .ok document) :
    files.readDocument other = .ok document := by
  unfold ReadAlike at alike
  rw [read] at alike
  cases found : files.readDocument other with
  | ok again =>
      rw [found] at alike
      exact congrArg Except.ok (Except.ok.inj alike).symm
  | error fault =>
      rw [found] at alike
      cases alike

private theorem ReadAlike.read_error
    {other : Path} {fault : LoadFault} (alike : files.ReadAlike file other)
    (failed : files.readDocument file = .error fault) :
    ∃ again,
      files.readDocument other = .error again ∧ again.kind = fault.kind := by
  unfold ReadAlike at alike
  rw [failed] at alike
  cases found : files.readDocument other with
  | ok document =>
      rw [found] at alike
      cases alike
  | error again =>
      rw [found] at alike
      exact ⟨again, rfl, (Except.error.inj alike).symm⟩

section

variable {twin : Path → Path → Prop} (twinning : files.IsTwinning twin)

include twinning

private theorem IsTwinning.flip : files.IsTwinning (Function.swap twin) where
  alike := fun twins => (twinning.alike twins).symm
  inside := by
    intro file other name twins names
    obtain ⟨value, read, member⟩ := names
    exact twinning.inside twins
      ⟨value, (twinning.alike twins).symm.read_ok read, member⟩

private theorem stands_of_twin
    {value : Yaml.Value} (stands : files.Stands file value) :
    ∀ {other}, twin file other → files.Stands other value := by
  induction stands with
  | expanded meaning read texts _ inductionHypothesis =>
      intro other twins
      exact .expanded meaning ((twinning.alike twins).read_ok read) texts
        fun name member =>
          inductionHypothesis name member
            (twinning.inside twins ⟨_, read, member⟩)
  | converted read plain =>
      intro other twins
      exact .converted ((twinning.alike twins).read_ok read) plain

private theorem meets_of_twin
    {other : Path}
    {content : Yaml.Value}
    (twins : twin file other)
    (meets : files.Meets file content) :
    files.Meets other content := by
  obtain ⟨value, before, after, read, split, earlier⟩ := meets
  refine ⟨value, before, after, (twinning.alike twins).read_ok read, split, ?_⟩
  intro content member
  obtain ⟨meaning, name, rfl, stands⟩ := earlier content member
  have among : .string name ∈ includes value := by
    rw [split]
    exact List.mem_append_left _ member
  exact ⟨meaning, name, rfl,
    stands_of_twin twinning stands (twinning.inside twins ⟨value, read, among⟩)⟩

private theorem breaks_of_twin
    (breaks : files.Breaks file kind) :
    ∀ {other}, twin file other → files.Breaks other kind := by
  induction breaks with
  | unread failed =>
      intro other twins
      obtain ⟨again, failedAgain, same⟩ :=
        (twinning.alike twins).read_error failed
      rw [← same]
      exact .unread failedAgain
  | noPath meets plain =>
      intro other twins
      exact .noPath (meets_of_twin twinning twins meets) plain
  | inside meets _ inductionHypothesis =>
      intro other twins
      obtain ⟨raw, read, member⟩ := meets.exists_yaml
      exact .inside (meets_of_twin twinning twins meets)
        (inductionHypothesis (twinning.inside twins ⟨raw, read, member⟩))

private theorem load_ok_of_twin
    {other : Path}
    {document : Document}
    (twins : twin file other)
    (loaded : files.load file = .ok document) :
    files.load other = .ok document := by
  by_cases plain : ∀ value, files.readDocument file ≠ .ok (.yaml value)
  · rw [load_of_not_yaml plain] at loaded
    have read := (twinning.alike twins).read_ok loaded
    rw [load_of_not_yaml ?_, read]
    intro value again
    exact plain value ((twinning.alike twins).symm.read_ok again)
  · obtain ⟨value, read⟩ :
        ∃ value, files.readDocument file = .ok (.yaml value) := by
      simpa using plain
    obtain ⟨result, same, stands⟩ := (load_of_yaml read).mp loaded
    have readOther := (twinning.alike twins).read_ok read
    exact (load_of_yaml readOther).mpr
      ⟨result, same, stands_of_twin twinning stands twins⟩

/-- Twins load with the same document, or both fail by a fault of the same
kind. -/
theorem load_of_twins
    {other : Path} (twins : twin file other) :
    (files.load file).mapError LoadFault.kind =
      (files.load other).mapError LoadFault.kind := by
  have back : Function.swap twin other file := twins
  cases loaded : files.load file with
  | ok document => rw [load_ok_of_twin twinning twins loaded]
  | error fault =>
      have failsOther : ∃ again, files.load other = .error again := by
        cases loadedOther : files.load other with
        | error again => exact ⟨again, rfl⟩
        | ok document =>
            rw [load_ok_of_twin twinning.flip back loadedOther] at loaded
            cases loaded
      obtain ⟨again, loadedOther⟩ := failsOther
      have same : again.kind = fault.kind := by
        rcases breaks_of_load loaded with cycle | breaks
        · rcases breaks_of_load loadedOther with cycleOther | breaksOther
          · rw [cycle, cycleOther]
          · obtain ⟨found, failed, same⟩ :=
              exists_load_of_breaks
                (breaks_of_twin twinning.flip breaksOther back)
            rw [loaded] at failed
            rw [← same, Except.error.inj failed]
        · obtain ⟨found, failed, same⟩ :=
            exists_load_of_breaks (breaks_of_twin twinning breaks twins)
          rw [loadedOther] at failed
          rw [← same, Except.error.inj failed]
      rw [loadedOther, Except.mapError, Except.mapError, same]

end

end FileSystem

end ConfigTree
