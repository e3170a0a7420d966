import ConfigTree.Document.Loading
import ConfigTree.Proofs.Yaml.Mappings

/-!
# The includes of a value

A value that includes others is put together of them: the include tags in it are
gone through in order, and what each stands for takes its place
(`substitute_eq`). Nothing else in the value changes.
-/

namespace ConfigTree.Document

/-- There are two ways to write the tag of an include. -/
theorem ownTag?_eq_includeTag_iff {tag : String} :
    Yaml.Value.ownTag? tag = some includeTag ↔
      tag = "!include" ∨ tag = "!!include" :=
  Yaml.Value.ownTag?_eq_some_iff (by decide) (by decide)

mutual

/-- What the include tags of a value are put on, in order. Keys are not looked
at, nor what is inside a tag's value. -/
def includes : Yaml.Value → List Yaml.Value
  | .tagged tag value => if tag = includeTag then [value] else includes value
  | .sequence items => includesOfItems items
  | .mapping entries => includesOfEntries entries
  | _ => []

def includesOfItems : List Yaml.Value → List Yaml.Value
  | [] => []
  | item :: rest => includes item ++ includesOfItems rest

def includesOfEntries : List (Yaml.Value × Yaml.Value) → List Yaml.Value
  | [] => []
  | (_, value) :: rest => includes value ++ includesOfEntries rest

end

mutual

/-- The value with the meaning of each include tag's value in place of the
tag. -/
def fill (meaning : Yaml.Value → Yaml.Value) : Yaml.Value → Yaml.Value
  | .tagged tag value =>
      if tag = includeTag then
        meaning value
      else
        .tagged tag (fill meaning value)
  | .sequence items => .sequence (fillItems meaning items)
  | .mapping entries => .mapping (fillEntries meaning entries)
  | value => value

def fillItems
    (meaning : Yaml.Value → Yaml.Value) :
    List Yaml.Value → List Yaml.Value
  | [] => []
  | item :: rest => fill meaning item :: fillItems meaning rest

def fillEntries
    (meaning : Yaml.Value → Yaml.Value) :
    List (Yaml.Value × Yaml.Value) → List (Yaml.Value × Yaml.Value)
  | [] => []
  | (key, value) :: rest =>
      (key, fill meaning value) :: fillEntries meaning rest

end

/-! ## Going through the includes -/

section Substitution

variable {included : Yaml.Value → Except LoadFault Yaml.Value}

/-- The contents of include tags one after the other, up to the first that
fails. -/
def inTurn
    (included : Yaml.Value → Except LoadFault Yaml.Value) :
    List Yaml.Value → Except LoadFault Unit
  | [] => .ok ()
  | content :: rest =>
    match included content with
    | .error fault => .error fault
    | .ok _ => inTurn included rest

/-- What comes out for the content of an include tag, if anything does. -/
def meaningOf
    (included : Yaml.Value → Except LoadFault Yaml.Value)
    (content : Yaml.Value) :
    Yaml.Value :=
  match included content with
  | .ok value => value
  | .error _ => .null

theorem meaningOf_eq
    {content value : Yaml.Value} (found : included content = .ok value) :
    meaningOf included content = value := by
  simp only [meaningOf, found]

private theorem inTurn_append (contents later : List Yaml.Value) :
    inTurn included (contents ++ later) =
      match inTurn included contents with
      | .error fault => .error fault
      | .ok _ => inTurn included later := by
  induction contents with
  | nil => rfl
  | cons content rest inductionHypothesis =>
      rw [List.cons_append, inTurn, inTurn, inductionHypothesis]
      cases included content with
      | error fault => rfl
      | ok value => rfl

private theorem inTurn_eq_ok_iff {contents : List Yaml.Value} :
    inTurn included contents = .ok () ↔
      ∀ content ∈ contents, ∃ value, included content = .ok value := by
  induction contents with
  | nil => simp [inTurn]
  | cons content rest inductionHypothesis =>
      rw [List.forall_mem_cons, ← inductionHypothesis, inTurn]
      cases included content with
      | error fault => simp
      | ok value => simp

private theorem inTurn_eq_error_iff
    {contents : List Yaml.Value} {fault : LoadFault} :
    inTurn included contents = .error fault ↔
      ∃ before content after, contents = before ++ content :: after ∧
        (∀ earlier ∈ before, ∃ value, included earlier = .ok value) ∧
          included content = .error fault := by
  constructor
  · intro failed
    induction contents with
    | nil => cases failed
    | cons content rest inductionHypothesis =>
        rw [inTurn] at failed
        cases found : included content with
        | error other =>
            rw [found] at failed
            obtain rfl := Except.error.inj failed
            exact ⟨[], content, rest, rfl, by simp, found⟩
        | ok value =>
            rw [found] at failed
            obtain ⟨before, failing, after, split, all, ended⟩ :=
              inductionHypothesis failed
            refine ⟨content :: before, failing, after,
              by rw [split, List.cons_append], ?_, ended⟩
            exact List.forall_mem_cons.mpr ⟨⟨value, found⟩, all⟩
  · intro given
    obtain ⟨before, content, after, rfl, all, failed⟩ := given
    rw [inTurn_append, inTurn_eq_ok_iff.mpr all, inTurn, failed]

mutual

theorem substitute_eq : ∀ value : Yaml.Value, substitute included value =
    (inTurn included (includes value)).map fun _ =>
      fill (meaningOf included) value
  | .null => rfl
  | .bool _ => rfl
  | .number _ => rfl
  | .string _ => rfl
  | .tagged tag value => by
      by_cases isInclude : tag = includeTag
      · rw [substitute, includes, fill, if_pos isInclude, if_pos isInclude,
          if_pos isInclude, inTurn]
        cases found : included value with
        | error fault => rfl
        | ok other => simp only [inTurn, Except.map, meaningOf_eq found]
      · rw [substitute, includes, fill, if_neg isInclude, if_neg isInclude,
          if_neg isInclude, substitute_eq value]
        cases inTurn included (includes value) with
        | error fault => rfl
        | ok _ => rfl
  | .sequence items => by
      rw [substitute, includes, fill, substituteItems_eq items]
      cases inTurn included (includesOfItems items) with
      | error fault => rfl
      | ok _ => rfl
  | .mapping entries => by
      rw [substitute, includes, fill, substituteEntries_eq entries]
      cases inTurn included (includesOfEntries entries) with
      | error fault => rfl
      | ok _ => rfl

theorem substituteItems_eq :
    ∀ items : List Yaml.Value, substituteItems included items =
    (inTurn included (includesOfItems items)).map fun _ =>
      fillItems (meaningOf included) items
  | [] => rfl
  | item :: rest => by
      rw [substituteItems, includesOfItems, inTurn_append, substitute_eq item,
        substituteItems_eq rest]
      cases inTurn included (includes item) with
      | error fault => rfl
      | ok _ =>
          cases inTurn included (includesOfItems rest) with
          | error fault => rfl
          | ok _ => rfl

theorem substituteEntries_eq :
    ∀ entries : List (Yaml.Value × Yaml.Value),
      substituteEntries included entries =
    (inTurn included (includesOfEntries entries)).map fun _ =>
      fillEntries (meaningOf included) entries
  | [] => rfl
  | (key, value) :: rest => by
      rw [substituteEntries, includesOfEntries, inTurn_append,
        substitute_eq value, substituteEntries_eq rest]
      cases inTurn included (includes value) with
      | error fault => rfl
      | ok _ =>
          cases inTurn included (includesOfEntries rest) with
          | error fault => rfl
          | ok _ => rfl

end

theorem substitute_eq_ok_iff {value result : Yaml.Value} :
    substitute included value = .ok result ↔
      (∀ content ∈ includes value, ∃ other, included content = .ok other) ∧
        fill (meaningOf included) value = result := by
  rw [substitute_eq, ← inTurn_eq_ok_iff]
  cases inTurn included (includes value) with
  | error fault => simp [Except.map]
  | ok _ => simp [Except.map]

/-- A value fails with what the first of its includes fails with that does not
come out. -/
theorem substitute_eq_error_iff {value : Yaml.Value} {fault : LoadFault} :
    substitute included value = .error fault ↔
      ∃ before content after, includes value = before ++ content :: after ∧
        (∀ earlier ∈ before, ∃ other, included earlier = .ok other) ∧
          included content = .error fault := by
  rw [substitute_eq, ← inTurn_eq_error_iff]
  cases inTurn included (includes value) with
  | error other => simp [Except.map]
  | ok _ => simp [Except.map]

end Substitution

/-! ## What is put in -/

section Filling

variable {meaning other : Yaml.Value → Yaml.Value}

mutual

theorem fill_congr :
    ∀ value : Yaml.Value,
      (∀ content ∈ includes value, meaning content = other content) →
    fill meaning value = fill other value
  | .null, _ => rfl
  | .bool _, _ => rfl
  | .number _, _ => rfl
  | .string _, _ => rfl
  | .tagged tag value, agree => by
      rw [includes] at agree
      rw [fill, fill]
      by_cases isInclude : tag = includeTag
      · rw [if_pos isInclude] at agree
        rw [if_pos isInclude, if_pos isInclude,
          agree value (List.mem_singleton_self value)]
      · rw [if_neg isInclude] at agree
        rw [if_neg isInclude, if_neg isInclude, fill_congr value agree]
  | .sequence items, agree => by
      rw [fill, fill, fillItems_congr items agree]
  | .mapping entries, agree => by
      rw [fill, fill, fillEntries_congr entries agree]

theorem fillItems_congr : ∀ items : List Yaml.Value,
    (∀ content ∈ includesOfItems items, meaning content = other content) →
      fillItems meaning items = fillItems other items
  | [], _ => rfl
  | item :: rest, agree => by
      obtain ⟨here, later⟩ := List.forall_mem_append.mp agree
      rw [fillItems, fillItems, fill_congr item here,
        fillItems_congr rest later]

theorem fillEntries_congr : ∀ entries : List (Yaml.Value × Yaml.Value),
    (∀ content ∈ includesOfEntries entries, meaning content = other content) →
      fillEntries meaning entries = fillEntries other entries
  | [], _ => rfl
  | (key, value) :: rest, agree => by
      obtain ⟨here, later⟩ := List.forall_mem_append.mp agree
      rw [fillEntries, fillEntries, fill_congr value here,
        fillEntries_congr rest later]

end

mutual

/-- The includes of a value that others are put into are those of what is put
in. -/
theorem includes_fill : ∀ value : Yaml.Value,
    includes (fill meaning value) =
      (includes value).flatMap fun content => includes (meaning content)
  | .null => rfl
  | .bool _ => rfl
  | .number _ => rfl
  | .string _ => rfl
  | .tagged tag value => by
      by_cases isInclude : tag = includeTag
      · rw [fill, includes, if_pos isInclude, if_pos isInclude,
          List.flatMap_singleton]
      · rw [fill, if_neg isInclude, includes, includes, if_neg isInclude,
          if_neg isInclude, includes_fill value]
  | .sequence items => by
      rw [fill, includes, includes, includes_fillItems items]
  | .mapping entries => by
      rw [fill, includes, includes, includes_fillEntries entries]

theorem includes_fillItems : ∀ items : List Yaml.Value,
    includesOfItems (fillItems meaning items) =
      (includesOfItems items).flatMap fun content => includes (meaning content)
  | [] => rfl
  | item :: rest => by
      rw [fillItems, includesOfItems, includesOfItems, includes_fill item,
        includes_fillItems rest, List.flatMap_append]

theorem includes_fillEntries : ∀ entries : List (Yaml.Value × Yaml.Value),
    includesOfEntries (fillEntries meaning entries) =
      (includesOfEntries entries).flatMap fun content =>
        includes (meaning content)
  | [] => rfl
  | (key, value) :: rest => by
      rw [fillEntries, includesOfEntries, includesOfEntries,
        includes_fill value, includes_fillEntries rest, List.flatMap_append]

end

mutual

theorem fill_of_no_includes :
    ∀ value : Yaml.Value, includes value = [] → fill meaning value = value
  | .null, _ => rfl
  | .bool _, _ => rfl
  | .number _, _ => rfl
  | .string _, _ => rfl
  | .tagged tag value, nothing => by
      rw [includes] at nothing
      by_cases isInclude : tag = includeTag
      · rw [if_pos isInclude] at nothing
        cases nothing
      · rw [if_neg isInclude] at nothing
        rw [fill, if_neg isInclude, fill_of_no_includes value nothing]
  | .sequence items, nothing => by
      rw [fill, fillItems_of_no_includes items nothing]
  | .mapping entries, nothing => by
      rw [fill, fillEntries_of_no_includes entries nothing]

theorem fillItems_of_no_includes :
    ∀ items : List Yaml.Value, includesOfItems items = [] →
    fillItems meaning items = items
  | [], _ => rfl
  | item :: rest, nothing => by
      obtain ⟨here, later⟩ := List.append_eq_nil_iff.mp nothing
      rw [fillItems, fill_of_no_includes item here,
        fillItems_of_no_includes rest later]

theorem fillEntries_of_no_includes :
    ∀ entries : List (Yaml.Value × Yaml.Value), includesOfEntries entries = [] →
    fillEntries meaning entries = entries
  | [], _ => rfl
  | (key, value) :: rest, nothing => by
      obtain ⟨here, later⟩ := List.append_eq_nil_iff.mp nothing
      rw [fillEntries, fill_of_no_includes value here,
        fillEntries_of_no_includes rest later]

end

end Filling

/-! ## Documents in other formats -/

mutual

@[simp]
theorem includes_yamlOfJson :
    ∀ value : Json.Value, includes (yamlOfJson value) = []
  | .null => rfl
  | .bool _ => rfl
  | .number _ => rfl
  | .string _ => rfl
  | .array items => by
      rw [yamlOfJson, includes, includes_yamlOfJsonItems items]
  | .object members => by
      rw [yamlOfJson, includes, includes_yamlOfJsonMembers members]

@[simp]
theorem includes_yamlOfJsonItems :
    ∀ items : List Json.Value, includesOfItems (yamlOfJsonItems items) = []
  | [] => rfl
  | item :: rest => by
      rw [yamlOfJsonItems, includesOfItems, includes_yamlOfJson item,
        includes_yamlOfJsonItems rest, List.append_nil]

@[simp]
theorem includes_yamlOfJsonMembers : ∀ members : List (String × Json.Value),
    includesOfEntries (yamlOfJsonMembers members) = []
  | [] => rfl
  | (name, value) :: rest => by
      rw [yamlOfJsonMembers, includesOfEntries, includes_yamlOfJson value,
        includes_yamlOfJsonMembers rest, List.append_nil]

end

private theorem includesOfEntries_eq_nil_iff
    {entries : List (Yaml.Value × Yaml.Value)} :
    includesOfEntries entries = [] ↔
      ∀ entry ∈ entries, includes entry.2 = [] := by
  induction entries with
  | nil => simp [includesOfEntries]
  | cons entry rest inductionHypothesis =>
      rw [List.forall_mem_cons, ← inductionHypothesis, includesOfEntries,
        List.append_eq_nil_iff]

private theorem mem_of_mem_byRank
    {entries : List (Nat × Yaml.Value × Yaml.Value)}
    {entry : Yaml.Value × Yaml.Value}
    (member : entry ∈ byRank entries) : ∃ rank, (rank, entry) ∈ entries := by
  obtain ⟨rank, _, among⟩ := List.mem_flatMap.mp member
  obtain ⟨⟨own, found⟩, filtered, rfl⟩ := List.mem_map.mp among
  exact ⟨own, (List.mem_filter.mp filtered).1⟩

mutual

@[simp]
theorem includes_yamlOfToml :
    ∀ value : Toml.Value, includes (yamlOfToml value) = []
  | .string _ => rfl
  | .integer _ => rfl
  | .real _ => rfl
  | .bool _ => rfl
  | .datetime _ => rfl
  | .array items => by
      rw [yamlOfToml, includes, includes_yamlOfTomlItems items]
  | .table members => by
      rw [yamlOfToml, includes, includesOfEntries_eq_nil_iff]
      intro entry member
      obtain ⟨rank, among⟩ := mem_of_mem_byRank member
      exact includes_yamlOfTomlMembers members (rank, entry) among

@[simp]
theorem includes_yamlOfTomlItems :
    ∀ items : List Toml.Value, includesOfItems (yamlOfTomlItems items) = []
  | [] => rfl
  | item :: rest => by
      rw [yamlOfTomlItems, includesOfItems, includes_yamlOfToml item,
        includes_yamlOfTomlItems rest, List.append_nil]

@[simp]
theorem includes_yamlOfTomlMembers : ∀ members : List (String × Toml.Value),
    ∀ entry ∈ yamlOfTomlMembers members, includes entry.2.2 = []
  | [] => by simp [yamlOfTomlMembers]
  | (_, value) :: rest =>
      List.forall_mem_cons.mpr
        ⟨includes_yamlOfToml value, includes_yamlOfTomlMembers rest⟩

end

/-- A document in another format than YAML includes nothing. -/
theorem includes_toYaml
    {document : Document} (other : ∀ value, document ≠ .yaml value) :
    includes document.toYaml = [] := by
  cases document with
  | json value => exact includes_yamlOfJson value
  | yaml value => exact absurd rfl (other value)
  | toml value => exact includes_yamlOfToml value
  | text content => rfl

end ConfigTree.Document
