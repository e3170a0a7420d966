import ConfigTree.Document.Basic
import ConfigTree.Proofs.Node.Numbering
import ConfigTree.Proofs.Node.Strings
import Mathlib.Algebra.GroupWithZero.Nat

/-!
# Marks of missing packages

How many marks of a missing package a tree holds. A numbered mapping holds as
many as the sequence that it becomes (`countMissing_ofEntries`), and a document
holds none (`countMissing_of_toNode`).
-/

namespace ConfigTree

namespace Node

mutual

/-- How many marks of a missing package of the name the tree holds. -/
def countMissing (name : String) : Node → Nat
  | .missingPackage other => if other = name then 1 else 0
  | .sequence items => countMissingItems name items
  | .mapping entries => countMissingEntries name entries
  | _ => 0

def countMissingItems (name : String) : List Node → Nat
  | [] => 0
  | item :: rest => countMissing name item + countMissingItems name rest

def countMissingEntries (name : String) : List (String × Node) → Nat
  | [] => 0
  | (_, value) :: rest =>
      countMissing name value + countMissingEntries name rest

end

@[grind =]
theorem countMissingItems_eq_sum (name : String) (items : List Node) :
    countMissingItems name items = (items.map (countMissing name)).sum := by
  induction items with
  | nil => rfl
  | cons item rest inductionHypothesis =>
      rw [countMissingItems, inductionHypothesis, List.map_cons, List.sum_cons]

@[grind =]
theorem countMissingEntries_eq_sum
    (name : String) (entries : List (String × Node)) :
    countMissingEntries name entries =
      ((entries.map Prod.snd).map (countMissing name)).sum := by
  induction entries with
  | nil => rfl
  | cons entry rest inductionHypothesis =>
      obtain ⟨key, value⟩ := entry
      rw [countMissingEntries, inductionHypothesis, List.map_cons,
        List.map_cons, List.sum_cons]

/-! ## Numbered mappings -/

/-- A mapping that becomes a sequence loses no mark and gains none. -/
@[simp]
theorem countMissing_ofEntries
    (name : String) (entries : List (String × Node)) :
    (ofEntries entries).countMissing name =
      countMissingEntries name entries := by
  unfold ofEntries
  cases numbered : numbered? entries with
  | none => rfl
  | some items =>
      dsimp only
      rw [countMissing, countMissingItems_eq_sum, countMissingEntries_eq_sum]
      exact ((numbered?_perm numbered).map (countMissing name)).sum_nat

/-! ## Documents -/

mutual

@[simp]
theorem countMissing_ofJson
    (name : String) :
    ∀ value : Json.Value, (ofJson value).countMissing name = 0
  | .null => rfl
  | .bool _ => rfl
  | .number _ => rfl
  | .string _ => rfl
  | .array items => countMissing_ofJsonItems name items
  | .object members => countMissing_ofJsonMembers name members

@[simp]
theorem countMissing_ofJsonItems (name : String) :
    ∀ items : List Json.Value, countMissingItems name (ofJsonItems items) = 0
  | [] => rfl
  | item :: rest => by
      rw [ofJsonItems, countMissingItems, countMissing_ofJson name item,
        countMissing_ofJsonItems name rest]

@[simp]
theorem countMissing_ofJsonMembers (name : String) :
    ∀ members : List (String × Json.Value),
      countMissingEntries name (ofJsonMembers members) = 0
  | [] => rfl
  | (_, value) :: rest => by
      rw [ofJsonMembers, countMissingEntries, countMissing_ofJson name value,
        countMissing_ofJsonMembers name rest]

end

@[simp]
theorem countMissing_ofReal
    (name : String) (value : Double) :
    (ofReal value).countMissing name = 0 := by
  unfold ofReal
  split
  · rfl
  · rfl

mutual

@[simp]
theorem countMissing_ofToml
    (name : String) :
    ∀ value : Toml.Value, (ofToml value).countMissing name = 0
  | .string _ => rfl
  | .integer _ => rfl
  | .real value => countMissing_ofReal name value
  | .bool _ => rfl
  | .datetime _ => rfl
  | .array items => countMissing_ofTomlItems name items
  | .table members => countMissing_ofTomlMembers name members

@[simp]
theorem countMissing_ofTomlItems (name : String) :
    ∀ items : List Toml.Value, countMissingItems name (ofTomlItems items) = 0
  | [] => rfl
  | item :: rest => by
      rw [ofTomlItems, countMissingItems, countMissing_ofToml name item,
        countMissing_ofTomlItems name rest]

@[simp]
theorem countMissing_ofTomlMembers (name : String) :
    ∀ members : List (String × Toml.Value),
      countMissingEntries name (ofTomlMembers members) = 0
  | [] => rfl
  | (_, value) :: rest => by
      rw [ofTomlMembers, countMissingEntries, countMissing_ofToml name value,
        countMissing_ofTomlMembers name rest]

end

mutual

theorem countMissing_of_ofYaml (name : String) :
    ∀ {value : Yaml.Value} {node : Node},
      ofYaml value = .ok node → node.countMissing name = 0
  | .null, _, rfl => rfl
  | .bool _, _, rfl => rfl
  | .number (.integer _), _, rfl => rfl
  | .number (.real value), _, rfl => countMissing_ofReal name value
  | .string _, _, rfl => rfl
  | .tagged _ _, _, converted => by
      rw [ofYaml] at converted
      exact countMissing_of_ofYaml name converted
  | .sequence items, node, converted => by
      rw [ofYaml] at converted
      cases inner : ofYamlItems items with
      | error duplicate => simp [inner] at converted
      | ok nodes =>
          simp only [inner, Except.ok.injEq] at converted
          subst converted
          exact countMissing_of_ofYamlItems name inner
  | .mapping entries, node, converted => by
      rw [ofYaml] at converted
      cases inner : ofYamlEntries [] entries with
      | error duplicate => simp [inner] at converted
      | ok pairs =>
          simp only [inner, Except.ok.injEq] at converted
          subst converted
          exact countMissing_of_ofYamlEntries name inner

theorem countMissing_of_ofYamlItems (name : String) :
    ∀ {items : List Yaml.Value} {nodes : List Node},
      ofYamlItems items = .ok nodes → countMissingItems name nodes = 0
  | [], _, rfl => rfl
  | item :: rest, nodes, converted => by
      rw [ofYamlItems] at converted
      cases first : ofYaml item with
      | error duplicate => simp [first] at converted
      | ok node =>
          cases later : ofYamlItems rest with
          | error duplicate => simp [first, later] at converted
          | ok others =>
              simp only [first, later, Except.ok.injEq] at converted
              subst converted
              rw [countMissingItems, countMissing_of_ofYaml name first,
                countMissing_of_ofYamlItems name later]

theorem countMissing_of_ofYamlEntries (name : String) :
    ∀ {before : List String} {entries : List (Yaml.Value × Yaml.Value)}
        {pairs : List (String × Node)},
      ofYamlEntries before entries = .ok pairs →
        countMissingEntries name pairs = 0
  | _, [], _, rfl => rfl
  | before, (key, value) :: rest, pairs, converted => by
      rw [ofYamlEntries] at converted
      by_cases old : keyText key ∈ before
      · simp [old] at converted
      · cases first : ofYaml value with
        | error duplicate => simp [old, first] at converted
        | ok node =>
            cases later : ofYamlEntries (keyText key :: before) rest with
            | error duplicate => simp [old, first, later] at converted
            | ok others =>
                simp only [old, first, later, if_false, Except.ok.injEq]
                  at converted
                subst converted
                rw [countMissingEntries, countMissing_of_ofYaml name first,
                  countMissing_of_ofYamlEntries name later]

end

/-- A document's tree holds no mark. -/
theorem countMissing_of_toNode
    {document : Document}
    {node : Node}
    (converted : document.toNode = .ok node)
    (name : String) :
    node.countMissing name = 0 := by
  cases document with
  | json value =>
      cases converted
      exact countMissing_ofJson name value
  | yaml value => exact countMissing_of_ofYaml name converted
  | toml value =>
      cases converted
      exact countMissing_ofToml name value
  | text content =>
      cases converted
      rfl

end Node

end ConfigTree
