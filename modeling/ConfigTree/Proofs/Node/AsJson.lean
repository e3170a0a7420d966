import ConfigTree.Proofs.Document.Keys
import ConfigTree.Proofs.Json.Ordered
import ConfigTree.Proofs.Node.Same

/-!
# Trees as JSON values

A tree is written as a JSON value and read from one. Main statement: both ways
there and back lead to what one started with, but for the marks of missing
packages, which come back as null (`json_back_and_forth`).
-/

namespace ConfigTree.Node

mutual

/-- The tree with null in place of every mark of a missing package. -/
def withoutMarks : Node → Node
  | .missingPackage _ => .null
  | .sequence items => .sequence (itemsWithoutMarks items)
  | .mapping entries => .mapping (entriesWithoutMarks entries)
  | node => node

def itemsWithoutMarks : List Node → List Node
  | [] => []
  | item :: rest => item.withoutMarks :: itemsWithoutMarks rest

def entriesWithoutMarks : List (String × Node) → List (String × Node)
  | [] => []
  | (key, value) :: rest =>
      (key, value.withoutMarks) :: entriesWithoutMarks rest

end

/-- The JSON value that a tree is written as. Its objects keep their members in
order of names. -/
def jsonValue (tree : Node) : Json.Value :=
  tree.toJson.sorted

/-! ## From a value and back -/

mutual

@[simp]
theorem toJson_ofJson : ∀ value : Json.Value, (ofJson value).toJson = value
  | .null => rfl
  | .bool _ => rfl
  | .number _ => rfl
  | .string _ => rfl
  | .array items => by rw [ofJson, toJson, toJsonItems_ofJsonItems items]
  | .object members => by
      rw [ofJson, toJson, toJsonMembers_ofJsonMembers members]

@[simp]
theorem toJsonItems_ofJsonItems :
    ∀ items : List Json.Value, toJsonItems (ofJsonItems items) = items
  | [] => rfl
  | item :: rest => by
      rw [ofJsonItems, toJsonItems, toJson_ofJson item,
        toJsonItems_ofJsonItems rest]

@[simp]
theorem toJsonMembers_ofJsonMembers :
    ∀ members : List (String × Json.Value),
      toJsonMembers (ofJsonMembers members) = members
  | [] => rfl
  | (_, value) :: rest => by
      rw [ofJsonMembers, toJsonMembers, toJson_ofJson value,
        toJsonMembers_ofJsonMembers rest]

end

/-! ## From a tree and back -/

@[simp]
theorem names_toJsonMembers (entries : List (String × Node)) :
    (toJsonMembers entries).map Prod.fst = entries.map Prod.fst := by
  induction entries with
  | nil => rfl
  | cons first rest inductionHypothesis =>
      obtain ⟨key, value⟩ := first
      rw [toJsonMembers, List.map_cons, List.map_cons, inductionHypothesis]

@[simp]
theorem keys_entriesWithoutMarks (entries : List (String × Node)) :
    (entriesWithoutMarks entries).map Prod.fst = entries.map Prod.fst := by
  induction entries with
  | nil => rfl
  | cons first rest inductionHypothesis =>
      obtain ⟨key, value⟩ := first
      rw [entriesWithoutMarks, List.map_cons, List.map_cons,
        inductionHypothesis]

/-- Reordering the value of each entry reorders the mapping. -/
theorem mapping_reorders
    (before : List (String × Node)) {entries others : List (String × Node)}
    (pairwise :
      List.Forall₂
        (fun entry other => entry.1 = other.1 ∧ entry.2.Reorders other.2)
        entries others) :
    (mapping (before ++ entries)).Reorders (mapping (before ++ others)) := by
  induction pairwise generalizing before with
  | nil => exact .refl _
  | @cons entry other rest others related _ inductionHypothesis =>
      obtain ⟨key, value⟩ := entry
      obtain ⟨otherKey, otherValue⟩ := other
      obtain ⟨rfl, inner⟩ : key = otherKey ∧ value.Reorders otherValue :=
        related
      have here :
          (mapping (before ++ (key, value) :: rest)).Reorders
            (mapping (before ++ (key, otherValue) :: rest)) :=
        .value before rest key inner
      have later := inductionHypothesis (before ++ [(key, otherValue)])
      rw [List.append_assoc, List.append_assoc] at later
      exact here.trans later

/-- The members of an object are entries of the tree, in whichever order they
are written. -/
theorem ofJsonMembers_sortMembers_perm
    {members : List (String × Json.Value)}
    (distinct : (members.map Prod.fst).Nodup) :
    (ofJsonMembers members).Perm
      (ofJsonMembers (Json.sortMembers members)) := by
  rw [ofJsonMembers_eq_map, ofJsonMembers_eq_map]
  exact (Json.sortMembers_perm distinct).symm.map _

mutual

/-- What is read from the value that a tree is written as is the tree in another
order, without its marks. -/
theorem withoutMarks_reorders :
    ∀ tree : Node,
      tree.HasUniqueKeys → tree.withoutMarks.Reorders (ofJson tree.jsonValue)
  | .null, _ => .refl _
  | .bool _, _ => .refl _
  | .number _, _ => .refl _
  | .string _, _ => .refl _
  | .missingPackage _, _ => .refl _
  | .sequence items, unique =>
      sequence_reorders [] (itemsWithoutMarks_reorder items unique)
  | .mapping entries, ⟨distinct, unique⟩ => by
      have inPlace :=
        mapping_reorders [] (entriesWithoutMarks_reorder entries unique)
      have names :
          ((Json.sortedMembers (toJsonMembers entries)).map
            Prod.fst).Nodup := by
        simpa using distinct
      exact inPlace.trans (.entries (ofJsonMembers_sortMembers_perm names))

theorem itemsWithoutMarks_reorder :
    ∀ items : List Node, ItemsHaveUniqueKeys items →
      List.Forall₂ Reorders (itemsWithoutMarks items)
        (ofJsonItems (Json.sortedItems (toJsonItems items)))
  | [], _ => .nil
  | item :: rest, ⟨here, later⟩ =>
      .cons (withoutMarks_reorders item here)
        (itemsWithoutMarks_reorder rest later)

theorem entriesWithoutMarks_reorder :
    ∀ entries : List (String × Node), EntriesHaveUniqueKeys entries →
      List.Forall₂
        (fun entry other => entry.1 = other.1 ∧ entry.2.Reorders other.2)
        (entriesWithoutMarks entries)
        (ofJsonMembers (Json.sortedMembers (toJsonMembers entries)))
  | [], _ => .nil
  | (_, value) :: rest, ⟨here, later⟩ =>
      .cons ⟨rfl, withoutMarks_reorders value here⟩
        (entriesWithoutMarks_reorder rest later)

end

mutual

theorem hasUniqueKeys_withoutMarks :
    ∀ tree : Node, tree.HasUniqueKeys → tree.withoutMarks.HasUniqueKeys
  | .null, _ => trivial
  | .bool _, _ => trivial
  | .number _, _ => trivial
  | .string _, _ => trivial
  | .missingPackage _, _ => trivial
  | .sequence items, unique => haveUniqueKeys_itemsWithoutMarks items unique
  | .mapping entries, ⟨distinct, unique⟩ =>
      ⟨keys_entriesWithoutMarks entries ▸ distinct,
        haveUniqueKeys_entriesWithoutMarks entries unique⟩

theorem haveUniqueKeys_itemsWithoutMarks :
    ∀ items : List Node,
      ItemsHaveUniqueKeys items → ItemsHaveUniqueKeys (itemsWithoutMarks items)
  | [], _ => trivial
  | item :: rest, ⟨here, later⟩ =>
      ⟨hasUniqueKeys_withoutMarks item here,
        haveUniqueKeys_itemsWithoutMarks rest later⟩

theorem haveUniqueKeys_entriesWithoutMarks :
    ∀ entries : List (String × Node),
      EntriesHaveUniqueKeys entries →
        EntriesHaveUniqueKeys (entriesWithoutMarks entries)
  | [], _ => trivial
  | (_, value) :: rest, ⟨here, later⟩ =>
      ⟨hasUniqueKeys_withoutMarks value here,
        haveUniqueKeys_entriesWithoutMarks rest later⟩

end

/-! ## Both ways -/

/-- A JSON value is what the tree that is read from it is written as. And a tree
that is written as a JSON value and read again is the tree with null in place of
its marks: at no depth is anything added, dropped or changed, only the entries
of a mapping may stand in another order. -/
theorem json_back_and_forth :
    (∀ value : Json.Value, value.IsOrdered → (ofJson value).jsonValue = value) ∧
      ∀ tree : Node, tree.HasUniqueKeys →
        tree.jsonValue.IsOrdered ∧
          tree.withoutMarks.Reorders (ofJson tree.jsonValue) ∧
          tree.withoutMarks.same (ofJson tree.jsonValue) = true := by
  constructor
  · intro value ordered
    rw [jsonValue, toJson_ofJson, Json.sorted_of_isOrdered value ordered]
  · intro tree unique
    have uniqueLeft := hasUniqueKeys_withoutMarks tree unique
    have reorders := withoutMarks_reorders tree unique
    exact ⟨Json.isOrdered_sorted _, reorders,
      same_of_reorders reorders uniqueLeft (same_refl _ uniqueLeft)⟩

theorem json_back_and_forth_unordered :
    let value :=
      Json.Value.object
        [("list", .array [.number (.integer 18446744073709551615), .null]),
          ("n", .string "")]
    let tree :=
      mapping
        [("pkg", .missingPackage "x"),
          ("n", .sequence [.mapping [("b", .null), ("a", .bool true)]])]
    let back :=
      mapping
        [("n", .sequence [.mapping [("a", .bool true), ("b", .null)]]),
          ("pkg", .null)]
    value.IsOrdered ∧ (ofJson value).jsonValue = value ∧
      tree.HasUniqueKeys ∧ ofJson tree.jsonValue = back ∧
        tree.withoutMarks.Reorders back := by
  intro value tree back
  have ascending : ("list" : String) < "n" := by decide
  have ordered : value.IsOrdered :=
    ⟨List.pairwise_pair.mpr ascending, ⟨trivial, trivial, trivial⟩, trivial,
      trivial⟩
  have unique : tree.HasUniqueKeys := by
    simp [tree, HasUniqueKeys, EntriesHaveUniqueKeys, ItemsHaveUniqueKeys]
  have read : ofJson tree.jsonValue = back := rfl
  obtain ⟨values, trees⟩ := json_back_and_forth
  obtain ⟨_, reorders, _⟩ := trees tree unique
  exact ⟨ordered, values value ordered, unique, read, read ▸ reorders⟩

end ConfigTree.Node
