import ConfigTree.Proofs.Document.Keys
import ConfigTree.Proofs.Node.Same

/-!
# Documents that a YAML text includes

A document of another format becomes a YAML value where a YAML text includes it,
and a tree after that. A JSON document is the same tree then as by itself
(`ofYaml_yamlOfJson`). A TOML document is so exactly if it has no date or time:
each of these becomes a mapping of one key, and by itself a string
(`included_same_iff`).
-/

namespace ConfigTree

namespace Node

/-- Entries whose keys are different texts become the entries of a tree, in the
same order. -/
theorem ofYamlEntries_map
    {α : Type}
    {key : α → String}
    {value : α → Yaml.Value}
    {tree : α → Node}
    {before : List String}
    {list : List α}
    (each : ∀ x ∈ list, ofYaml (value x) = .ok (tree x))
    (distinct : (list.map key).Nodup)
    (fresh : ∀ x ∈ list, key x ∉ before) :
    ofYamlEntries before (list.map fun x => (.string (key x), value x)) =
      .ok (list.map fun x => (key x, tree x)) := by
  induction list generalizing before with
  | nil => rfl
  | cons first rest inductionHypothesis =>
      obtain ⟨here, later⟩ := List.forall_mem_cons.mp each
      obtain ⟨freshHere, freshLater⟩ := List.forall_mem_cons.mp fresh
      obtain ⟨alone, distinctLater⟩ := List.nodup_cons.mp distinct
      have freshBehind : ∀ x ∈ rest, key x ∉ key first :: before := by
        intro x member
        rw [List.mem_cons, not_or]
        exact ⟨fun same => alone (same ▸ List.mem_map_of_mem member),
          freshLater x member⟩
      have behind := inductionHypothesis later distinctLater freshBehind
      simp only [List.map_cons, ofYamlEntries, keyText, freshHere, if_false,
        here, behind]

private theorem ofYaml_real {value : Double} (finite : value.isFinite = true) :
    ofYaml (.number (.real value)) = .ok (.number (.real value)) := by
  rw [ofYaml, ofReal, if_pos finite]

/-! ## JSON -/

@[grind =]
theorem yamlOfJsonMembers_eq_map (members : List (String × Json.Value)) :
    Document.yamlOfJsonMembers members =
      members.map fun member =>
        (.string member.1, Document.yamlOfJson member.2) := by
  induction members with
  | nil => rfl
  | cons first rest inductionHypothesis =>
      rw [Document.yamlOfJsonMembers, inductionHypothesis, List.map_cons]

mutual

/-- As a YAML value, a proper JSON value is the tree that it is by itself. -/
theorem ofYaml_yamlOfJson :
    ∀ value : Json.Value,
      value.IsProper → ofYaml (Document.yamlOfJson value) = .ok (ofJson value)
  | .null, _ => rfl
  | .bool _, _ => rfl
  | .number (.integer _), _ => rfl
  | .number (.real _), finite => ofYaml_real finite
  | .string _, _ => rfl
  | .array items, proper => by
      rw [Document.yamlOfJson, ofYaml, ofYamlItems_yamlOfJsonItems items proper]
      rfl
  | .object members, ⟨distinct, proper⟩ => by
      have each := ofYaml_yamlOfJson_of_mem members proper
      have entries :=
        ofYamlEntries_map each distinct fun _ _ => List.not_mem_nil
      rw [Document.yamlOfJson, ofYaml, yamlOfJsonMembers_eq_map, entries,
        ofJson, ofJsonMembers_eq_map]

theorem ofYamlItems_yamlOfJsonItems :
    ∀ items : List Json.Value, Json.ItemsAreProper items →
      ofYamlItems (Document.yamlOfJsonItems items) = .ok (ofJsonItems items)
  | [], _ => rfl
  | item :: rest, ⟨here, later⟩ => by
      rw [Document.yamlOfJsonItems, ofYamlItems, ofYaml_yamlOfJson item here,
        ofYamlItems_yamlOfJsonItems rest later]
      rfl

theorem ofYaml_yamlOfJson_of_mem :
    ∀ members : List (String × Json.Value), Json.MembersAreProper members →
      ∀ member ∈ members,
        ofYaml (Document.yamlOfJson member.2) = .ok (ofJson member.2)
  | [], _ => fun _ none => absurd none List.not_mem_nil
  | (_, value) :: rest, ⟨here, later⟩ =>
      List.forall_mem_cons.mpr
        ⟨ofYaml_yamlOfJson value here, ofYaml_yamlOfJson_of_mem rest later⟩

end

/-! ## TOML -/

/-- What a date or time becomes: a mapping that has it as its only value. -/
def ofDatetime (value : Toml.Datetime) : Node :=
  .mapping [(Document.datetimeKey, .string value.text)]

/-- The values of each rank together, the least rank first. -/
def inRanks {α : Type} (entries : List (Nat × α)) : List α :=
  [0, 1, 2].flatMap fun rank => (entries.filter (·.1 = rank)).map (·.2)

mutual

/-- The tree of a TOML value that a YAML text includes: of a table's members,
tables come last. -/
def ofIncludedToml : Toml.Value → Node
  | .string value => .string value
  | .integer value => .number (.integer value)
  | .real value => ofReal value
  | .bool value => .bool value
  | .datetime value => ofDatetime value
  | .array items => .sequence (ofIncludedTomlItems items)
  | .table members => .mapping (inRanks (ofIncludedTomlMembers members))

def ofIncludedTomlItems : List Toml.Value → List Node
  | [] => []
  | item :: rest => ofIncludedToml item :: ofIncludedTomlItems rest

def ofIncludedTomlMembers :
    List (String × Toml.Value) → List (Nat × String × Node)
  | [] => []
  | (name, value) :: rest =>
      (Document.memberRank value, name, ofIncludedToml value) ::
        ofIncludedTomlMembers rest

end

/-- The members of a table as they are written out. -/
def ranked
    (members : List (String × Toml.Value)) :
    List (String × Toml.Value) :=
  inRanks (members.map fun member => (Document.memberRank member.2, member))

private theorem memberRank_le_two
    (value : Toml.Value) :
    Document.memberRank value ≤ 2 := by
  cases value with
  | array items =>
      rw [Document.memberRank]
      split <;> omega
  | _ => simp [Document.memberRank]

private theorem inRanks_cons_perm
    {α : Type}
    (rank : Nat)
    (value : α)
    (entries : List (Nat × α))
    (low : rank ≤ 2) :
    (inRanks ((rank, value) :: entries)).Perm (value :: inRanks entries) := by
  have cases : rank = 0 ∨ rank = 1 ∨ rank = 2 := by omega
  unfold inRanks
  simp only [List.flatMap_cons, List.flatMap_nil, List.append_nil]
  rcases cases with rfl | rfl | rfl
  · simp
  · simp
  · simp [← List.append_assoc]

private theorem ranked_perm
    (members : List (String × Toml.Value)) :
    (ranked members).Perm members := by
  induction members with
  | nil => exact .refl _
  | cons first rest inductionHypothesis =>
      exact (inRanks_cons_perm _ first _ (memberRank_le_two first.2)).trans
        (inductionHypothesis.cons first)

private theorem inRanks_map
    {α β : Type} (f : α → β) (entries : List (Nat × α)) :
    inRanks (entries.map fun entry => (entry.1, f entry.2)) =
      (inRanks entries).map f := by
  unfold inRanks
  simp [List.filter_map, Function.comp_def]

private theorem byRank_yamlOfTomlMembers
    (members : List (String × Toml.Value)) :
    Document.byRank (Document.yamlOfTomlMembers members) =
      (ranked members).map fun member =>
        (.string member.1, Document.yamlOfToml member.2) := by
  have written :
      Document.yamlOfTomlMembers members =
        (members.map fun member => (Document.memberRank member.2, member)).map
          fun entry =>
            (entry.1, .string entry.2.1, Document.yamlOfToml entry.2.2) := by
    induction members with
    | nil => rfl
    | cons first rest inductionHypothesis =>
        rw [Document.yamlOfTomlMembers, inductionHypothesis, List.map_cons,
          List.map_cons]
  rw [ranked, ← inRanks_map, written]
  rfl

private theorem inRanks_ofIncludedTomlMembers
    (members : List (String × Toml.Value)) :
    inRanks (ofIncludedTomlMembers members) =
      (ranked members).map fun member =>
        (member.1, ofIncludedToml member.2) := by
  have written :
      ofIncludedTomlMembers members =
        (members.map fun member => (Document.memberRank member.2, member)).map
          fun entry => (entry.1, entry.2.1, ofIncludedToml entry.2.2) := by
    induction members with
    | nil => rfl
    | cons first rest inductionHypothesis =>
        rw [ofIncludedTomlMembers, inductionHypothesis, List.map_cons,
          List.map_cons]
  rw [ranked, ← inRanks_map, written]

mutual

/-- As a YAML value, a TOML value in which no table has a name twice is a
tree. -/
theorem ofYaml_yamlOfToml :
    ∀ value : Toml.Value,
      value.HasUniqueNames →
        ofYaml (Document.yamlOfToml value) = .ok (ofIncludedToml value)
  | .string _, _ => rfl
  | .integer _, _ => rfl
  | .real _, _ => rfl
  | .bool _, _ => rfl
  | .datetime _, _ => rfl
  | .array items, unique => by
      rw [Document.yamlOfToml, ofYaml, ofYamlItems_yamlOfTomlItems items unique]
      rfl
  | .table members, ⟨distinct, unique⟩ => by
      have perm := ranked_perm members
      have each := ofYaml_yamlOfToml_of_mem members unique
      have eachRanked : ∀ member ∈ ranked members,
          ofYaml (Document.yamlOfToml member.2) =
              .ok (ofIncludedToml member.2) :=
        fun member among => each member (perm.mem_iff.mp among)
      have distinctRanked : ((ranked members).map Prod.fst).Nodup :=
        (perm.map Prod.fst).nodup_iff.mpr distinct
      have entries :=
        ofYamlEntries_map eachRanked distinctRanked fun _ _ => List.not_mem_nil
      rw [Document.yamlOfToml, ofYaml, byRank_yamlOfTomlMembers, entries,
        ofIncludedToml, inRanks_ofIncludedTomlMembers]

theorem ofYamlItems_yamlOfTomlItems :
    ∀ items : List Toml.Value, Toml.ItemsHaveUniqueNames items →
      ofYamlItems (Document.yamlOfTomlItems items) =
        .ok (ofIncludedTomlItems items)
  | [], _ => rfl
  | item :: rest, ⟨here, later⟩ => by
      rw [Document.yamlOfTomlItems, ofYamlItems, ofYaml_yamlOfToml item here,
        ofYamlItems_yamlOfTomlItems rest later]
      rfl

theorem ofYaml_yamlOfToml_of_mem :
    ∀ members : List (String × Toml.Value),
      Toml.MembersHaveUniqueNames members →
        ∀ member ∈ members,
          ofYaml (Document.yamlOfToml member.2) = .ok (ofIncludedToml member.2)
  | [], _ => fun _ none => absurd none List.not_mem_nil
  | (_, value) :: rest, ⟨here, later⟩ =>
      List.forall_mem_cons.mpr
        ⟨ofYaml_yamlOfToml value here, ofYaml_yamlOfToml_of_mem rest later⟩

end

end Node

/-! ## Dates and times -/

namespace Toml

mutual

/-- The dates and times in a value. -/
def Value.datetimes : Value → List Datetime
  | .datetime value => [value]
  | .array items => datetimesOfItems items
  | .table members => datetimesOfMembers members
  | _ => []

def datetimesOfItems : List Value → List Datetime
  | [] => []
  | item :: rest => item.datetimes ++ datetimesOfItems rest

def datetimesOfMembers : List (String × Value) → List Datetime
  | [] => []
  | (_, value) :: rest => value.datetimes ++ datetimesOfMembers rest

end

mutual

/-- The value with another in place of each date or time. -/
def Value.replaceDates (replacement : Datetime → Value) : Value → Value
  | .datetime value => replacement value
  | .array items => .array (replaceDatesInItems replacement items)
  | .table members => .table (replaceDatesInMembers replacement members)
  | value => value

def replaceDatesInItems
    (replacement : Datetime → Value) :
    List Value → List Value
  | [] => []
  | item :: rest =>
      item.replaceDates replacement :: replaceDatesInItems replacement rest

def replaceDatesInMembers
    (replacement : Datetime → Value) :
    List (String × Value) → List (String × Value)
  | [] => []
  | (name, value) :: rest =>
      (name, value.replaceDates replacement) ::
        replaceDatesInMembers replacement rest

end

mutual

@[simp]
theorem replaceDates_datetime :
    ∀ value : Value, value.replaceDates .datetime = value
  | .string _ => rfl
  | .integer _ => rfl
  | .real _ => rfl
  | .bool _ => rfl
  | .datetime _ => rfl
  | .array items => by
      rw [Value.replaceDates, replaceDatesInItems_datetime items]
  | .table members => by
      rw [Value.replaceDates, replaceDatesInMembers_datetime members]

@[simp]
theorem replaceDatesInItems_datetime :
    ∀ items : List Value, replaceDatesInItems .datetime items = items
  | [] => rfl
  | item :: rest => by
      rw [replaceDatesInItems, replaceDates_datetime item,
        replaceDatesInItems_datetime rest]

@[simp]
theorem replaceDatesInMembers_datetime :
    ∀ members : List (String × Value),
      replaceDatesInMembers .datetime members = members
  | [] => rfl
  | (_, value) :: rest => by
      rw [replaceDatesInMembers, replaceDates_datetime value,
        replaceDatesInMembers_datetime rest]

end

private theorem forall_datetimesOfMembers_iff
    {members : List (String × Value)} {holds : Datetime → Prop} :
    (∀ value ∈ datetimesOfMembers members, holds value) ↔
      ∀ member ∈ members, ∀ value ∈ member.2.datetimes, holds value := by
  induction members with
  | nil => simp [datetimesOfMembers]
  | cons first rest inductionHypothesis =>
      rw [datetimesOfMembers, List.forall_mem_append, inductionHypothesis,
        List.forall_mem_cons]

@[grind =]
theorem replaceDatesInMembers_eq_map
    (replacement : Datetime → Value) (members : List (String × Value)) :
    replaceDatesInMembers replacement members =
      members.map fun member =>
        (member.1, member.2.replaceDates replacement) := by
  induction members with
  | nil => rfl
  | cons first rest inductionHypothesis =>
      rw [replaceDatesInMembers, inductionHypothesis, List.map_cons]

end Toml

namespace Node

/-- Two mappings over the members of a table are the same if they are so at each
member. -/
theorem same_mapping_ranked_iff
    {members : List (String × Toml.Value)} (first second : Toml.Value → Node)
    (distinct : (members.map Prod.fst).Nodup) :
    (mapping
          ((ranked members).map fun member => (member.1, first member.2))).same
          (.mapping (members.map fun member => (member.1, second member.2))) =
        true ↔
      ∀ member ∈ members, (first member.2).same (second member.2) = true := by
  have perm := ranked_perm members
  have keys :
      (members.map fun member => (member.1, second member.2)).map Prod.fst =
        members.map Prod.fst := by
    rw [List.map_map]
    rfl
  have found : ∀ member ∈ members,
      (members.map fun member => (member.1, second member.2)).lookup member.1 =
          some (second member.2) := by
    intro member among
    exact Keyed.lookup_of_mem (keys ▸ distinct) (List.mem_map_of_mem among)
  rw [same_mapping_iff, List.length_map, List.length_map, perm.length_eq]
  constructor
  · rintro ⟨_, each⟩ member among
    obtain ⟨other, atKey, sameValue⟩ :=
      each _ (List.mem_map_of_mem (perm.mem_iff.mpr among))
    rw [found member among] at atKey
    cases atKey
    exact sameValue
  · intro each
    refine ⟨rfl, ?_⟩
    intro entry among
    obtain ⟨member, inRanked, rfl⟩ := List.mem_map.mp among
    have member' := perm.mem_iff.mp inRanked
    exact ⟨_, found member member', each member member'⟩

variable (replacement : Toml.Datetime → Toml.Value)

mutual

/-- The tree of an included value is the same as that of the value with other
values in place of dates and times exactly if each of these stands for the same
mapping as the date or time. -/
theorem same_ofIncludedToml_iff :
    ∀ value : Toml.Value, value.HasUniqueNames →
      ((ofIncludedToml value).same (ofToml (value.replaceDates replacement)) =
          true ↔
        ∀ datetime ∈ value.datetimes,
          (ofDatetime datetime).same (ofToml (replacement datetime)) = true)
  | .string _, _ => by
      simp [ofIncludedToml, Toml.Value.replaceDates, ofToml, same,
        Toml.Value.datetimes]
  | .integer _, _ => by
      simp [ofIncludedToml, Toml.Value.replaceDates, ofToml, same,
        sameNumber_refl, Toml.Value.datetimes]
  | .real value, _ => by
      have unique : (ofReal value).HasUniqueKeys :=
        hasUniqueKeys_of_plain (isComposite_ofReal value)
      simp [ofIncludedToml, Toml.Value.replaceDates, ofToml, same_refl _ unique,
        Toml.Value.datetimes]
  | .bool _, _ => by
      simp [ofIncludedToml, Toml.Value.replaceDates, ofToml, same,
        Toml.Value.datetimes]
  | .datetime value, _ => by
      simp [ofIncludedToml, Toml.Value.replaceDates, Toml.Value.datetimes]
  | .array items, unique => by
      rw [ofIncludedToml, Toml.Value.replaceDates, ofToml, same,
        Toml.Value.datetimes]
      exact sameItems_ofIncludedTomlItems_iff items unique
  | .table members, ⟨distinct, unique⟩ => by
      have atMembers :=
        same_mapping_ranked_iff ofIncludedToml
          (fun value => ofToml (value.replaceDates replacement)) distinct
      rw [ofIncludedToml, inRanks_ofIncludedTomlMembers,
        Toml.Value.replaceDates, ofToml, ofTomlMembers_eq_map,
        Toml.replaceDatesInMembers_eq_map, List.map_map, Toml.Value.datetimes,
        Toml.forall_datetimesOfMembers_iff]
      exact atMembers.trans
        (forall₂_congr (same_ofIncludedToml_iff_of_mem members unique))

theorem sameItems_ofIncludedTomlItems_iff :
    ∀ items : List Toml.Value, Toml.ItemsHaveUniqueNames items →
      (sameItems (ofIncludedTomlItems items)
            (ofTomlItems (Toml.replaceDatesInItems replacement items)) = true ↔
        ∀ datetime ∈ Toml.datetimesOfItems items,
          (ofDatetime datetime).same (ofToml (replacement datetime)) = true)
  | [], _ => by
      simp [ofIncludedTomlItems, Toml.replaceDatesInItems, ofTomlItems,
        sameItems, Toml.datetimesOfItems]
  | item :: rest, ⟨here, later⟩ => by
      rw [ofIncludedTomlItems, Toml.replaceDatesInItems, ofTomlItems, sameItems,
        Bool.and_eq_true, same_ofIncludedToml_iff item here,
        sameItems_ofIncludedTomlItems_iff rest later, Toml.datetimesOfItems,
        List.forall_mem_append]

theorem same_ofIncludedToml_iff_of_mem :
    ∀ members : List (String × Toml.Value),
      Toml.MembersHaveUniqueNames members →
        ∀ member ∈ members,
          ((ofIncludedToml member.2).same
                (ofToml (member.2.replaceDates replacement)) = true ↔
            ∀ datetime ∈ member.2.datetimes,
              (ofDatetime datetime).same (ofToml (replacement datetime)) = true)
  | [], _ => fun _ none => absurd none List.not_mem_nil
  | (_, value) :: rest, ⟨here, later⟩ =>
      List.forall_mem_cons.mpr
        ⟨same_ofIncludedToml_iff value here,
          same_ofIncludedToml_iff_of_mem rest later⟩

end

end Node

/-! ## Documents -/

namespace Document

/-- The dates and times in a document; only TOML has them. -/
def datetimes : Document → List Toml.Datetime
  | .toml value => value.datetimes
  | _ => []

/-- The document with a table of one key in place of each date or time. -/
def withDateTables : Document → Document
  | .toml value =>
      .toml
        (value.replaceDates fun datetime =>
          .table [(datetimeKey, .string datetime.text)])
  | document => document

end Document

/-- A JSON or TOML document is a tree, and so is the YAML value that it becomes
where a YAML text includes it. Both are the same tree, whatever order their
mappings have, exactly if there is no date or time in the document. In any case
the latter is the tree of the document that has, for each date or time, a table
with it under a private key. -/
theorem included_same_iff
    {document : Document}
    (format : document.format? = some .json ∨ document.format? = some .toml)
    (proper : document.IsProper) :
    ∃ direct included,
      document.toNode = .ok direct ∧
      Node.ofYaml document.toYaml = .ok included ∧
      (included.same direct = true ↔ document.datetimes = []) ∧
      ∃ replaced,
        document.withDateTables.toNode = .ok replaced ∧
        included.same replaced = true := by
  cases document with
  | json value =>
      have same := Node.same_refl _ (Node.hasUniqueKeys_ofJson value proper)
      refine ⟨_, _, rfl, Node.ofYaml_yamlOfJson value proper, ?_, _, rfl, same⟩
      simp [same, Document.datetimes]
  | toml value =>
      refine ⟨_, _, rfl, Node.ofYaml_yamlOfToml value proper, ?_, _, rfl, ?_⟩
      · have iff := Node.same_ofIncludedToml_iff .datetime value proper
        rw [Toml.replaceDates_datetime] at iff
        rw [iff, Document.datetimes, List.eq_nil_iff_forall_not_mem]
        simp [Node.ofDatetime, Node.ofToml, Node.same]
      · rw [Node.same_ofIncludedToml_iff _ value proper]
        intro datetime _
        simp [Node.ofDatetime, Node.ofToml, Node.ofTomlMembers, Node.same,
          Node.entriesWithin]
  | yaml value => simp [Document.format?] at format
  | text content => simp [Document.format?] at format

theorem included_same_iff_plainTable :
    let document :=
      Document.toml (.table [("sub", .table []), ("n", .integer 1)])
    document.format? = some .toml ∧ document.IsProper ∧
      ∃ direct included,
        document.toNode = .ok direct ∧
        Node.ofYaml document.toYaml = .ok included ∧
        included.same direct = true := by
  intro document
  have proper : document.IsProper := by
    simp [document, Document.IsProper, Toml.Value.HasUniqueNames,
      Toml.MembersHaveUniqueNames]
  obtain ⟨direct, included, converted, convertedYaml, same, _⟩ :=
    included_same_iff (.inr rfl) proper
  exact ⟨rfl, proper, direct, included, converted, convertedYaml, same.mpr rfl⟩

/-- The document of the text `at = 1979-05-27`. -/
def datedDocument : Document :=
  .toml (.table [("at", .datetime (.date ⟨1979, 5, 27⟩))])

private theorem readPair_dated :
    Toml.readPair "at = 1979-05-27".toList =
      some (.pair ["at"] (.datetime (.date ⟨1979, 5, 27⟩)), []) := by
  have key : Toml.readKey "at = 1979-05-27".toList =
      some (["at"], "= 1979-05-27".toList) := rfl
  have mark : Toml.readMark '=' "= 1979-05-27".toList =
      some " 1979-05-27".toList := rfl
  have value :
      Toml.readValue (2 * " 1979-05-27".toList.length + 2) 0
          (Toml.skipBlanks " 1979-05-27".toList) =
        some (.datetime (.date ⟨1979, 5, 27⟩), []) := rfl
  rw [Toml.readPair, key, Option.bind_eq_bind, Option.bind_some]
  dsimp only
  rw [mark, Option.bind_eq_bind, Option.bind_some, value]
  rfl

private theorem statements?_dated :
    Toml.statements? "at = 1979-05-27" =
      some [.pair ["at"] (.datetime (.date ⟨1979, 5, 27⟩))] := by
  show (Toml.readPair "at = 1979-05-27".toList).bind (fun pair =>
    (Toml.endOfLine? pair.2).bind fun rest =>
      (Toml.readStatements 15 rest).bind fun statements =>
        some (pair.1 :: statements)) = _
  rw [readPair_dated]
  rfl

/-- By itself the document is a mapping to a string; where it is included it is
a mapping to a mapping. -/
theorem included_date_differs :
    Document.ofText? .toml "at = 1979-05-27" = some datedDocument ∧
      datedDocument.IsProper ∧
      ∃ direct included,
        datedDocument.toNode = .ok direct ∧
        Node.ofYaml datedDocument.toYaml = .ok included ∧
        direct.get? "at" = some (.string "1979-05-27") ∧
        included.get? "at" =
          some (.mapping [("$__toml_private_datetime", .string "1979-05-27")]) ∧
        included.same direct = false := by
  have read :
      Document.ofText? .toml "at = 1979-05-27" = some datedDocument := by
    rw [Document.ofText?, Toml.Value.ofText?, Toml.tableOfText?,
      statements?_dated]
    rfl
  have proper : datedDocument.IsProper := by
    simp [datedDocument, Document.IsProper, Toml.Value.HasUniqueNames,
      Toml.MembersHaveUniqueNames]
  exact ⟨read, proper, _, _, rfl, rfl, rfl, rfl, rfl⟩

end ConfigTree
