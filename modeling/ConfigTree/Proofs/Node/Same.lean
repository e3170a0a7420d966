import ConfigTree.Proofs.Keyed
import ConfigTree.Proofs.Node.Reordering
import ConfigTree.Yaml.Value

/-!
# Sameness of trees

Two trees are the same if they differ in nothing but the order in which mappings
have their keys. Main statements: what makes two mappings the same
(`same_mapping_iff`), a tree with unique keys is the same as itself
(`same_refl`), and what is the same as a tree is the same as the tree reordered
(`same_of_reorders`).
-/

namespace ConfigTree.Node

mutual

/-- Whether two trees are the same, where mappings count as maps from keys to
values. -/
def same : Node → Node → Bool
  | .null, .null => true
  | .bool a, .bool b => a = b
  | .number a, .number b => Yaml.Value.sameNumber a b
  | .string a, .string b => a = b
  | .sequence items, .sequence others => sameItems items others
  | .mapping entries, .mapping others =>
      entries.length = others.length && entriesWithin entries others
  | .missingPackage a, .missingPackage b => a = b
  | _, _ => false

def sameItems : List Node → List Node → Bool
  | [], [] => true
  | item :: rest, other :: others => same item other && sameItems rest others
  | _, _ => false

/-- Whether every key is among the others, with the same value. -/
def entriesWithin : List (String × Node) → List (String × Node) → Bool
  | [], _ => true
  | (key, value) :: rest, others =>
    (match others.lookup key with
      | some other => same value other
      | none => false) && entriesWithin rest others

end

private theorem entriesWithin_iff {entries others : List (String × Node)} :
    entriesWithin entries others = true ↔
      ∀ entry ∈ entries,
        ∃ other,
          others.lookup entry.1 = some other ∧ entry.2.same other = true := by
  induction entries with
  | nil => simp [entriesWithin]
  | cons first rest inductionHypothesis =>
      obtain ⟨key, value⟩ := first
      rw [entriesWithin, Bool.and_eq_true, inductionHypothesis,
        List.forall_mem_cons]
      cases others.lookup key with
      | none => simp
      | some other => simp

/-- Mappings are the same if they have equally many keys and those of one are in
the other with the same values. -/
theorem same_mapping_iff {entries others : List (String × Node)} :
    (mapping entries).same (.mapping others) = true ↔
      entries.length = others.length ∧
        ∀ entry ∈ entries,
          ∃ other,
            others.lookup entry.1 = some other ∧ entry.2.same other = true := by
  rw [same, Bool.and_eq_true, entriesWithin_iff, decide_eq_true_iff]

@[simp]
theorem sameNumber_refl
    (value : Number) :
    Yaml.Value.sameNumber value value = true := by
  cases value with
  | integer value => simp [Yaml.Value.sameNumber]
  | real value => cases value <;> simp [Yaml.Value.sameNumber, Double.same]

mutual

/-- A tree with unique keys is the same as itself. -/
theorem same_refl : ∀ tree : Node, tree.HasUniqueKeys → tree.same tree = true
  | .null, _ => rfl
  | .bool _, _ => by simp [same]
  | .number value, _ => by simp [same]
  | .string _, _ => by simp [same]
  | .missingPackage _, _ => by simp [same]
  | .sequence items, unique => by
      rw [same]
      exact sameItems_refl items unique
  | .mapping entries, ⟨distinct, unique⟩ => by
      have each := values_same_refl entries unique
      refine same_mapping_iff.mpr ⟨rfl, ?_⟩
      intro entry member
      exact ⟨entry.2, Keyed.lookup_of_mem distinct member, each entry member⟩

theorem sameItems_refl :
    ∀ items : List Node,
      ItemsHaveUniqueKeys items → sameItems items items = true
  | [], _ => rfl
  | item :: rest, ⟨here, later⟩ => by
      rw [sameItems, same_refl item here, sameItems_refl rest later,
        Bool.and_self]

theorem values_same_refl :
    ∀ entries : List (String × Node),
      EntriesHaveUniqueKeys entries →
        ∀ entry ∈ entries, entry.2.same entry.2 = true
  | [], _ => fun _ none => absurd none List.not_mem_nil
  | (_, value) :: rest, ⟨here, later⟩ =>
      List.forall_mem_cons.mpr
        ⟨same_refl value here, values_same_refl rest later⟩

end

/-! ## Reordered trees -/

private theorem exists_entries_of_same
    {tree : Node} {others : List (String × Node)}
    (alike : tree.same (.mapping others) = true) :
    ∃ entries, tree = .mapping entries := by
  cases tree with
  | mapping entries => exact ⟨entries, rfl⟩
  | _ => cases alike

private theorem exists_items_of_same
    {tree : Node}
    {others : List Node}
    (alike : tree.same (.sequence others) = true) :
    ∃ items, tree = .sequence items := by
  cases tree with
  | sequence items => exact ⟨items, rfl⟩
  | _ => cases alike

private theorem sameItems_of_replaced
    {item other : Node}
    (inner : ∀ {node : Node}, node.same item = true → node.same other = true)
    (after : List Node) :
    ∀ {before items : List Node},
      sameItems items (before ++ item :: after) = true →
        sameItems items (before ++ other :: after) = true
  | [], node :: rest, alike => by
      obtain ⟨here, later⟩ := Bool.and_eq_true_iff.mp alike
      exact Bool.and_eq_true_iff.mpr ⟨inner here, later⟩
  | _ :: before, _ :: rest, alike => by
      obtain ⟨here, later⟩ := Bool.and_eq_true_iff.mp alike
      exact
        Bool.and_eq_true_iff.mpr ⟨here, sameItems_of_replaced inner after later⟩
  | [], [], alike => nomatch alike
  | _ :: _, [], alike => nomatch alike

/-- What is the same as a tree with unique keys is the same as the tree in
another order. -/
theorem same_of_reorders
    {tree other : Node}
    (reorders : tree.Reorders other)
    (unique : tree.HasUniqueKeys) :
    ∀ {node : Node}, node.same tree = true → node.same other = true := by
  induction reorders with
  | refl => exact id
  | trans first _ firstHypothesis secondHypothesis =>
      intro node alike
      exact secondHypothesis (hasUniqueKeys_of_reorders first unique)
        (firstHypothesis unique alike)
  | entries perm =>
      intro node alike
      obtain ⟨own, rfl⟩ := exists_entries_of_same alike
      obtain ⟨length, each⟩ := same_mapping_iff.mp alike
      refine same_mapping_iff.mpr
        ⟨length.trans perm.length_eq, fun entry member => ?_⟩
      rw [← lookup_eq_of_perm perm unique.1]
      exact each entry member
  | @value before after key value other _ inductionHypothesis =>
      intro node alike
      obtain ⟨own, rfl⟩ := exists_entries_of_same alike
      obtain ⟨length, each⟩ := same_mapping_iff.mp alike
      have uniqueValue : value.HasUniqueKeys :=
        entriesHaveUniqueKeys_iff.mp unique.2 (key, value) (by simp)
      refine same_mapping_iff.mpr
        ⟨by simpa using length, fun entry member => ?_⟩
      obtain ⟨found, sought, alikeValue⟩ := each entry member
      rcases lookup_of_replaced before after key value other entry.1 with
        kept | ⟨replaced, placed⟩
      · exact ⟨found, kept.trans sought, alikeValue⟩
      · cases replaced.symm.trans sought
        exact ⟨other, placed, inductionHypothesis uniqueValue alikeValue⟩
  | @item before after item other _ inductionHypothesis =>
      intro node alike
      obtain ⟨own, rfl⟩ := exists_items_of_same alike
      have uniqueItem : item.HasUniqueKeys :=
        itemsHaveUniqueKeys_iff.mp unique item (by simp)
      exact sameItems_of_replaced (inductionHypothesis uniqueItem) after alike

end ConfigTree.Node
