import ConfigTree.Node.Conversion
import Mathlib.Data.List.Forall2

/-!
# Trees from YAML values

A YAML value is gone through for the keys of its mappings. It is no tree if one
of them has the text of an earlier key of the same mapping (`ofYaml_eq`). Main
statement: that, which key the failure names, and what a value that is a tree
keeps of itself (`ofYaml_keeps_entries_apart`).
-/

namespace ConfigTree

/-- The part stands in a value, or is the value. Keys are not looked into. -/
inductive Yaml.Value.Occurs (part : Yaml.Value) : Yaml.Value → Prop where
  | here : Occurs part part
  | item
      {items : List Yaml.Value}
      {item : Yaml.Value}
      (member : item ∈ items)
      (within : Occurs part item) :
      Occurs part (.sequence items)
  | entry
      {entries : List (Yaml.Value × Yaml.Value)}
      {key value : Yaml.Value}
      (member : (key, value) ∈ entries)
      (within : Occurs part value) :
      Occurs part (.mapping entries)
  | tagged
      {tag : String} {value : Yaml.Value} (within : Occurs part value) :
      Occurs part (.tagged tag value)

namespace Node

/-- The texts of a mapping's keys, in order. -/
def keyTexts (entries : List (Yaml.Value × Yaml.Value)) : List String :=
  entries.map fun entry => keyText entry.1

/-- A key of a mapping, with the texts of the keys before it. -/
structure MetKey where
  before : List String
  text : String

def MetKey.isRepeated (met : MetKey) : Bool :=
  met.text ∈ met.before

mutual

/-- The keys of a value's mappings from the outside in: a key before its own
value, and behind the values of the entries before it. -/
def metKeys : Yaml.Value → List MetKey
  | .sequence items => metKeysOfItems items
  | .mapping entries => metKeysOfEntries [] entries
  | .tagged _ value => metKeys value
  | _ => []

def metKeysOfItems : List Yaml.Value → List MetKey
  | [] => []
  | item :: rest => metKeys item ++ metKeysOfItems rest

def metKeysOfEntries
    (before : List String) :
    List (Yaml.Value × Yaml.Value) → List MetKey
  | [] => []
  | (key, value) :: rest =>
    ⟨before, keyText key⟩ ::
      (metKeys value ++ metKeysOfEntries (keyText key :: before) rest)

end

/-- What a value keeps as a tree: everything but its tags. Keys become texts,
and so do numbers that are not finite. -/
inductive Keeps : Yaml.Value → Node → Prop where
  | null : Keeps .null .null
  | bool (value : Bool) : Keeps (.bool value) (.bool value)
  | integer
      (value : Int) :
      Keeps (.number (.integer value)) (.number (.integer value))
  | real
      {value : Double} (finite : value.isFinite = true) :
      Keeps (.number (.real value)) (.number (.real value))
  | word {value : Double} (infinite : value.isFinite = false) :
      Keeps (.number (.real value)) (.string (value.text wordLayout))
  | string (value : String) : Keeps (.string value) (.string value)
  | tagged
      {tag : String}
      {value : Yaml.Value}
      {node : Node}
      (inner : Keeps value node) :
      Keeps (.tagged tag value) node
  | sequence
      {items : List Yaml.Value}
      {nodes : List Node}
      (each : List.Forall₂ Keeps items nodes) :
      Keeps (.sequence items) (.sequence nodes)
  | mapping
      {entries : List (Yaml.Value × Yaml.Value)}
      {others : List (String × Node)}
      (keys : others.map Prod.fst = keyTexts entries)
      (values :
        List.Forall₂ Keeps (entries.map Prod.snd) (others.map Prod.snd)) :
      Keeps (.mapping entries) (.mapping others)

/-! ## The keys that are met -/

mutual

/-- No met key is repeated exactly if every mapping has different keys. -/
theorem forall_metKeys_iff :
    ∀ value : Yaml.Value, (∀ met ∈ metKeys value, met.text ∉ met.before) ↔
      ∀ entries,
        Yaml.Value.Occurs (.mapping entries) value → (keyTexts entries).Nodup
  | .null => by
      refine iff_of_true (by simp [metKeys]) ?_
      rintro entries ⟨⟩
  | .bool _ => by
      refine iff_of_true (by simp [metKeys]) ?_
      rintro entries ⟨⟩
  | .number _ => by
      refine iff_of_true (by simp [metKeys]) ?_
      rintro entries ⟨⟩
  | .string _ => by
      refine iff_of_true (by simp [metKeys]) ?_
      rintro entries ⟨⟩
  | .tagged _ value => by
      rw [metKeys, forall_metKeys_iff value]
      constructor
      · rintro all entries (_ | _ | _ | within)
        exact all entries within
      · exact fun all entries within => all entries (.tagged within)
  | .sequence items => by
      rw [metKeys, forall_metKeysOfItems_iff items]
      constructor
      · rintro all entries (_ | ⟨member, within⟩)
        exact all _ member entries within
      · exact fun all item member entries within =>
          all entries (.item member within)
  | .mapping entries => by
      rw [metKeys, forall_metKeysOfEntries_iff [] entries]
      constructor
      · rintro ⟨⟨distinct, _⟩, all⟩ inner (_ | _ | ⟨member, within⟩)
        · exact distinct
        · exact all _ member inner within
      · intro all
        exact ⟨⟨all entries .here, fun _ _ => List.not_mem_nil⟩,
          fun entry member inner within => all inner (.entry member within)⟩

theorem forall_metKeysOfItems_iff :
    ∀ items : List Yaml.Value,
      (∀ met ∈ metKeysOfItems items, met.text ∉ met.before) ↔
        ∀ item ∈ items,
          ∀ entries,
            Yaml.Value.Occurs (.mapping entries) item → (keyTexts entries).Nodup
  | [] => by simp [metKeysOfItems]
  | item :: rest => by
      rw [metKeysOfItems, List.forall_mem_append, List.forall_mem_cons,
        forall_metKeys_iff item, forall_metKeysOfItems_iff rest]

theorem forall_metKeysOfEntries_iff (before : List String) :
    ∀ entries : List (Yaml.Value × Yaml.Value),
      (∀ met ∈ metKeysOfEntries before entries, met.text ∉ met.before) ↔
        ((keyTexts entries).Nodup ∧ ∀ text ∈ keyTexts entries, text ∉ before) ∧
          ∀ entry ∈ entries,
            ∀ inner,
              Yaml.Value.Occurs (.mapping inner) entry.2 →
                (keyTexts inner).Nodup
  | [] => by simp [metKeysOfEntries, keyTexts]
  | (key, value) :: rest => by
      rw [metKeysOfEntries, List.forall_mem_cons, List.forall_mem_append,
        List.forall_mem_cons, forall_metKeys_iff value,
        forall_metKeysOfEntries_iff (keyText key :: before) rest]
      have split :
          keyTexts ((key, value) :: rest) = keyText key :: keyTexts rest :=
        rfl
      rw [split, List.nodup_cons, List.forall_mem_cons]
      constructor
      · rintro ⟨new, inFirst, ⟨distinct, fresh⟩, inRest⟩
        have differs : keyText key ∉ keyTexts rest :=
          fun again => fresh _ again List.mem_cons_self
        have older : ∀ text ∈ keyTexts rest, text ∉ before :=
          fun text member earlier =>
            fresh text member (List.mem_cons_of_mem _ earlier)
        exact ⟨⟨⟨differs, distinct⟩, new, older⟩, inFirst, inRest⟩
      · rintro ⟨⟨⟨differs, distinct⟩, new, fresh⟩, inFirst, inRest⟩
        refine ⟨new, inFirst, ⟨distinct, ?_⟩, inRest⟩
        rintro text member (_ | ⟨_, earlier⟩)
        · exact differs member
        · exact fresh text member earlier

end

/-! ## The tree but for repeated keys -/

mutual

/-- The tree that a value is, its repeated keys left in. -/
def ofYamlUnchecked : Yaml.Value → Node
  | .null => .null
  | .bool value => .bool value
  | .number (.integer value) => .number (.integer value)
  | .number (.real value) => ofReal value
  | .string value => .string value
  | .sequence items => .sequence (ofYamlItemsUnchecked items)
  | .mapping entries => .mapping (ofYamlEntriesUnchecked entries)
  | .tagged _ value => ofYamlUnchecked value

def ofYamlItemsUnchecked : List Yaml.Value → List Node
  | [] => []
  | item :: rest => ofYamlUnchecked item :: ofYamlItemsUnchecked rest

def ofYamlEntriesUnchecked :
    List (Yaml.Value × Yaml.Value) → List (String × Node)
  | [] => []
  | (key, value) :: rest =>
      (keyText key, ofYamlUnchecked value) :: ofYamlEntriesUnchecked rest

end

/-- The result, unless a met key is repeated: the first one is the failure
then. -/
def unlessRepeated
    {α : Type} (met : List MetKey) (result : α) :
    Except DuplicateKey α :=
  match met.find? MetKey.isRepeated with
  | some key => .error ⟨key.text⟩
  | none => .ok result

mutual

theorem ofYaml_eq :
    ∀ value : Yaml.Value,
      ofYaml value = unlessRepeated (metKeys value) (ofYamlUnchecked value)
  | .null => rfl
  | .bool _ => rfl
  | .number (.integer _) => rfl
  | .number (.real _) => rfl
  | .string _ => rfl
  | .tagged _ value => by
      rw [ofYaml, metKeys, ofYamlUnchecked]
      exact ofYaml_eq value
  | .sequence items => by
      rw [ofYaml, metKeys, ofYamlUnchecked, ofYamlItems_eq items]
      unfold unlessRepeated
      cases (metKeysOfItems items).find? MetKey.isRepeated <;> rfl
  | .mapping entries => by
      rw [ofYaml, metKeys, ofYamlUnchecked, ofYamlEntries_eq [] entries]
      unfold unlessRepeated
      cases (metKeysOfEntries [] entries).find? MetKey.isRepeated <;> rfl

theorem ofYamlItems_eq :
    ∀ items : List Yaml.Value,
      ofYamlItems items =
        unlessRepeated (metKeysOfItems items) (ofYamlItemsUnchecked items)
  | [] => rfl
  | item :: rest => by
      rw [ofYamlItems, ofYaml_eq item, ofYamlItems_eq rest, metKeysOfItems,
        ofYamlItemsUnchecked]
      unfold unlessRepeated
      rw [List.find?_append]
      cases (metKeys item).find? MetKey.isRepeated
      · cases (metKeysOfItems rest).find? MetKey.isRepeated <;> rfl
      · rfl

theorem ofYamlEntries_eq (before : List String) :
    ∀ entries : List (Yaml.Value × Yaml.Value),
      ofYamlEntries before entries =
        unlessRepeated (metKeysOfEntries before entries)
          (ofYamlEntriesUnchecked entries)
  | [] => rfl
  | (key, value) :: rest => by
      rw [ofYamlEntries, ofYaml_eq value,
        ofYamlEntries_eq (keyText key :: before) rest, metKeysOfEntries,
        ofYamlEntriesUnchecked]
      unfold unlessRepeated
      rw [List.find?_cons, List.find?_append]
      by_cases old : keyText key ∈ before
      · simp [MetKey.isRepeated, old]
      · simp only [MetKey.isRepeated, old, decide_false, if_false]
        cases (metKeys value).find? MetKey.isRepeated
        · cases (metKeysOfEntries (keyText key :: before) rest).find?
            MetKey.isRepeated <;> rfl
        · rfl

end

private theorem ofYaml_eq_ok_iff {value : Yaml.Value} {node : Node} :
    ofYaml value = .ok node ↔
      (∀ met ∈ metKeys value, met.text ∉ met.before) ∧
        node = ofYamlUnchecked value := by
  have noneRepeated :
      (metKeys value).find? MetKey.isRepeated = none ↔
          ∀ met ∈ metKeys value, met.text ∉ met.before := by
    simp [MetKey.isRepeated]
  rw [ofYaml_eq, unlessRepeated, ← noneRepeated]
  cases (metKeys value).find? MetKey.isRepeated with
  | none => simp [eq_comm]
  | some met => simp

private theorem ofYaml_eq_error_iff {value : Yaml.Value} {key : String} :
    ofYaml value = .error ⟨key⟩ ↔
      ∃ before met after,
        metKeys value = before ++ met :: after ∧
        (∀ earlier ∈ before, earlier.text ∉ earlier.before) ∧
        met.text ∈ met.before ∧ met.text = key := by
  have firstRepeated (met : MetKey) :
      (metKeys value).find? MetKey.isRepeated = some met ↔
        met.text ∈ met.before ∧
            ∃ before after,
              metKeys value = before ++ met :: after ∧
              ∀ earlier ∈ before, earlier.text ∉ earlier.before := by
    simp [List.find?_eq_some_iff_append, MetKey.isRepeated]
  rw [ofYaml_eq, unlessRepeated]
  constructor
  · intro failed
    cases found : (metKeys value).find? MetKey.isRepeated with
    | none => simp [found] at failed
    | some met =>
        obtain ⟨repeated, before, after, split, earlier⟩ :=
          (firstRepeated met).mp found
        simp only [found, Except.error.injEq, DuplicateKey.mk.injEq] at failed
        exact ⟨before, met, after, split, earlier, repeated, failed⟩
  · rintro ⟨before, met, after, split, earlier, repeated, rfl⟩
    rw [(firstRepeated met).mpr ⟨repeated, before, after, split, earlier⟩]

/-! ## What is kept -/

private theorem keeps_ofReal
    (value : Double) :
    Keeps (.number (.real value)) (ofReal value) := by
  unfold ofReal
  split
  next finite => exact .real finite
  next infinite => exact .word (Bool.not_eq_true _ ▸ infinite)

@[simp]
theorem keys_ofYamlEntriesUnchecked (entries : List (Yaml.Value × Yaml.Value)) :
    (ofYamlEntriesUnchecked entries).map Prod.fst = keyTexts entries := by
  induction entries with
  | nil => rfl
  | cons first rest inductionHypothesis =>
      rw [ofYamlEntriesUnchecked, List.map_cons, inductionHypothesis]
      rfl

mutual

theorem keeps_ofYamlUnchecked :
    ∀ value : Yaml.Value, Keeps value (ofYamlUnchecked value)
  | .null => .null
  | .bool value => .bool value
  | .number (.integer value) => .integer value
  | .number (.real value) => keeps_ofReal value
  | .string value => .string value
  | .tagged _ value => .tagged (keeps_ofYamlUnchecked value)
  | .sequence items => .sequence (keeps_ofYamlItemsUnchecked items)
  | .mapping entries =>
      .mapping (keys_ofYamlEntriesUnchecked entries)
        (keeps_ofYamlEntriesUnchecked entries)

theorem keeps_ofYamlItemsUnchecked :
    ∀ items : List Yaml.Value,
      List.Forall₂ Keeps items (ofYamlItemsUnchecked items)
  | [] => .nil
  | item :: rest =>
      .cons (keeps_ofYamlUnchecked item) (keeps_ofYamlItemsUnchecked rest)

theorem keeps_ofYamlEntriesUnchecked :
    ∀ entries : List (Yaml.Value × Yaml.Value),
      List.Forall₂ Keeps (entries.map Prod.snd)
        ((ofYamlEntriesUnchecked entries).map Prod.snd)
  | [] => .nil
  | (_, value) :: rest =>
      .cons (keeps_ofYamlUnchecked value) (keeps_ofYamlEntriesUnchecked rest)

end

mutual

/-- A value keeps itself as one tree only. -/
theorem eq_of_keeps :
    ∀ {value : Yaml.Value} {node : Node},
      Keeps value node → node = ofYamlUnchecked value
  | .null, _, .null => rfl
  | .bool _, _, .bool _ => rfl
  | .number (.integer _), _, .integer _ => rfl
  | .number (.real value), _, .real finite => by
      rw [ofYamlUnchecked, ofReal, if_pos finite]
  | .number (.real value), _, .word infinite => by
      rw [ofYamlUnchecked, ofReal, if_neg (by simp [infinite])]
  | .string _, _, .string _ => rfl
  | .tagged _ value, _, .tagged inner => by
      rw [ofYamlUnchecked]
      exact eq_of_keeps inner
  | .sequence items, _, .sequence each => by
      rw [ofYamlUnchecked, eq_of_each_keeps each]
  | .mapping entries, .mapping others, .mapping keys values => by
      have sameKeys :
          others.map Prod.fst = (ofYamlEntriesUnchecked entries).map Prod.fst :=
        keys.trans (keys_ofYamlEntriesUnchecked entries).symm
      have sameValues := eq_of_values_keep values
      rw [ofYamlUnchecked, ← List.zip_unzip others,
        ← List.zip_unzip (ofYamlEntriesUnchecked entries)]
      simp only [List.unzip_fst, List.unzip_snd, sameKeys, sameValues]

theorem eq_of_each_keeps :
    ∀ {items : List Yaml.Value} {nodes : List Node},
      List.Forall₂ Keeps items nodes → nodes = ofYamlItemsUnchecked items
  | [], _, .nil => rfl
  | item :: rest, _, .cons first later => by
      rw [ofYamlItemsUnchecked, ← eq_of_keeps first, ← eq_of_each_keeps later]

theorem eq_of_values_keep :
    ∀ {entries : List (Yaml.Value × Yaml.Value)} {nodes : List Node},
      List.Forall₂ Keeps (entries.map Prod.snd) nodes →
        nodes = (ofYamlEntriesUnchecked entries).map Prod.snd
  | [], _, .nil => rfl
  | (_, value) :: rest, _, .cons first later => by
      rw [ofYamlEntriesUnchecked, List.map_cons, ← eq_of_keeps first,
        ← eq_of_values_keep later]

end

private theorem keeps_iff
    {value : Yaml.Value} {node : Node} :
    Keeps value node ↔ node = ofYamlUnchecked value :=
  ⟨eq_of_keeps, fun same => same ▸ keeps_ofYamlUnchecked value⟩

/-- A YAML value is no tree exactly if a mapping in it, not within a key, has
two keys of one text. The failure then names the first key that is met again. A
value that is a tree keeps everything but its tags, each entry under its key's
text and in its place. -/
theorem ofYaml_keeps_entries_apart (value : Yaml.Value) :
    ((∃ duplicate, ofYaml value = .error duplicate) ↔
      ∃ entries,
        Yaml.Value.Occurs (.mapping entries) value ∧
        ¬ (keyTexts entries).Nodup) ∧
    (∀ key, ofYaml value = .error ⟨key⟩ ↔
      ∃ before met after,
        metKeys value = before ++ met :: after ∧
        (∀ earlier ∈ before, earlier.text ∉ earlier.before) ∧
        met.text ∈ met.before ∧ met.text = key) ∧
    ∀ node, ofYaml value = .ok node ↔
      (∀ entries,
        Yaml.Value.Occurs (.mapping entries) value → (keyTexts entries).Nodup) ∧
        Keeps value node := by
  refine ⟨?_, fun key => ofYaml_eq_error_iff, fun node => ?_⟩
  · have fails :
        (∃ duplicate, ofYaml value = .error duplicate) ↔
          ¬ ∃ node, ofYaml value = .ok node := by
      cases ofYaml value <;> simp
    have succeeds :
        (∃ node, ofYaml value = .ok node) ↔
          ∀ met ∈ metKeys value, met.text ∉ met.before := by
      simp [ofYaml_eq_ok_iff]
    rw [fails, succeeds, forall_metKeys_iff]
    simp only [not_forall, exists_prop]
  · rw [ofYaml_eq_ok_iff, forall_metKeys_iff, keeps_iff]

example : ofYaml
      (.mapping [(.number (.integer 1), .null), (.string "1", .null)]) =
    .error ⟨"1"⟩ := by
  rfl

end Node

end ConfigTree
