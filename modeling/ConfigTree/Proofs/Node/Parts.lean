import ConfigTree.Proofs.Node.Missing
import ConfigTree.Proofs.Node.Reordering
import ConfigTree.Reference

/-!
# Parts of trees

What occurs in a tree at any depth. A tree with a node in place of each string
has the parts of these nodes and, apart from them, no numbered mapping and no
string (`Settled.substitute`).
-/

namespace ConfigTree.Node

/-- The part stands somewhere in the tree, or is the tree. -/
inductive Occurs (part : Node) : Node → Prop where
  | here : Occurs part part
  | item
      {items : List Node}
      {item : Node}
      (member : item ∈ items)
      (within : Occurs part item) :
      Occurs part (.sequence items)
  | entry
      {entries : List (String × Node)}
      {key : String}
      {value : Node}
      (member : (key, value) ∈ entries)
      (within : Occurs part value) :
      Occurs part (.mapping entries)

variable {part tree : Node}

/-- In a node that is no mapping and no sequence nothing occurs but the node. -/
theorem eq_of_occurs
    (plain : tree.isComposite = false) (occurs : Occurs part tree) :
    part = tree := by
  cases occurs with
  | here => rfl
  | item member within => cases plain
  | entry member within => cases plain

/-! ## What entries make -/

/-- A mapping that resolved entries make is not numbered. -/
theorem not_isNumbering_of_ofEntries
    {entries made : List (String × Node)}
    (distinct : (entries.map Prod.fst).Nodup)
    (same : ofEntries entries = .mapping made) :
    ¬IsNumbering (made.map Prod.fst) := by
  intro numbering
  unfold ofEntries at same
  cases numbered : numbered? entries with
  | some items =>
      rw [numbered] at same
      cases same
  | none =>
      rw [numbered] at same
      cases same
      obtain ⟨items, found⟩ := (exists_numbered?_iff distinct).mpr numbering
      rw [numbered] at found
      cases found

private theorem mem_values_of_numbered?
    {entries : List (String × Node)} {items : List Node} {item : Node}
    (numbered : numbered? entries = some items) (member : item ∈ items) :
    ∃ key, (key, item) ∈ entries := by
  obtain ⟨entry, among, rfl⟩ :=
    List.mem_map.mp ((numbered?_perm numbered).mem_iff.mp member)
  exact ⟨entry.1, among⟩

/-- What occurs in the node that entries make is the node or occurs in a
value. -/
theorem occurs_ofEntries
    {entries : List (String × Node)}
    (occurs : Occurs part (ofEntries entries)) :
    part = ofEntries entries ∨
      ∃ key value, (key, value) ∈ entries ∧ Occurs part value := by
  unfold ofEntries at occurs ⊢
  cases numbered : numbered? entries with
  | some items =>
      rw [numbered] at occurs
      cases occurs with
      | here => exact .inl rfl
      | item member within =>
          obtain ⟨key, among⟩ := mem_values_of_numbered? numbered member
          exact .inr ⟨key, _, among, within⟩
  | none =>
      rw [numbered] at occurs
      cases occurs with
      | here => exact .inl rfl
      | entry member within => exact .inr ⟨_, _, member, within⟩

private theorem hasUniqueKeys_ofEntries
    {entries : List (String × Node)} (distinct : (entries.map Prod.fst).Nodup)
    (each : ∀ entry ∈ entries, entry.2.HasUniqueKeys) :
    (ofEntries entries).HasUniqueKeys := by
  unfold ofEntries
  cases numbered : numbered? entries with
  | none => exact ⟨distinct, entriesHaveUniqueKeys_iff.mpr each⟩
  | some items =>
      apply itemsHaveUniqueKeys_iff.mpr
      intro item member
      obtain ⟨key, among⟩ := mem_values_of_numbered? numbered member
      exact each _ among

/-! ## Settled trees -/

/-- Nothing is left to do in the tree: no mapping in it is numbered, and each of
its strings stands for itself or is one of those that may stay. -/
structure Settled (mayStay : String → Prop) (tree : Node) : Prop where
  unique : tree.HasUniqueKeys
  unnumbered :
    ∀ entries,
      Occurs (.mapping entries) tree → ¬IsNumbering (entries.map Prod.fst)
  strings :
    ∀ value,
      Occurs (.string value) tree → Reference.classify value ≠ .ok none →
        mayStay value

variable {mayStay other : String → Prop}

theorem Settled.imp
    (settled : tree.Settled mayStay)
    (weaker : ∀ value, mayStay value → other value) :
    tree.Settled other :=
  ⟨settled.unique, settled.unnumbered,
    fun value occurs refers =>
      weaker value (settled.strings value occurs refers)⟩

/-- A node that is no mapping and no sequence is settled if it is no string that
has to go. -/
theorem settled_of_plain (plain : tree.isComposite = false)
    (stays :
      ∀ value,
        tree = .string value → Reference.classify value ≠ .ok none →
          mayStay value) :
    tree.Settled mayStay := by
  constructor
  · cases tree with
    | sequence items => cases plain
    | mapping entries => cases plain
    | _ => exact trivial
  · intro entries occurs
    rw [← eq_of_occurs plain occurs] at plain
    cases plain
  · intro value occurs
    exact stays value (eq_of_occurs plain occurs).symm

private theorem settled_sequence
    {items : List Node} (each : ∀ item ∈ items, item.Settled mayStay) :
    (sequence items).Settled mayStay := by
  constructor
  · exact
      itemsHaveUniqueKeys_iff.mpr fun item member => (each item member).unique
  · rintro entries (_ | ⟨member, within⟩ | _)
    exact (each _ member).unnumbered entries within
  · rintro value (_ | ⟨member, within⟩ | _)
    exact (each _ member).strings value within

private theorem settled_ofEntries
    {entries : List (String × Node)} (distinct : (entries.map Prod.fst).Nodup)
    (each : ∀ entry ∈ entries, entry.2.Settled mayStay) :
    (ofEntries entries).Settled mayStay := by
  constructor
  · exact hasUniqueKeys_ofEntries distinct fun entry member =>
      (each entry member).unique
  · intro made occurs
    rcases occurs_ofEntries occurs with same | ⟨key, value, member, within⟩
    · exact not_isNumbering_of_ofEntries distinct same.symm
    · exact (each _ member).unnumbered made within
  · intro text occurs
    rcases occurs_ofEntries occurs with same | ⟨key, value, member, within⟩
    · unfold ofEntries at same
      cases numbered : numbered? entries with
      | some items => simp [numbered] at same
      | none => simp [numbered] at same
    · exact (each _ member).strings text within

section Substitution

variable {meaning : String → Node}

mutual

/-- With settled nodes in place of its strings, a tree is settled. -/
theorem Settled.substitute (keyPath : KeyPath) :
    ∀ tree : Node,
      tree.HasUniqueKeys →
        (∀ string ∈ tree.strings keyPath, (meaning string.2).Settled mayStay) →
        (tree.substitute meaning).Settled mayStay
  | .null, _, _ => settled_of_plain rfl fun _ same => nomatch same
  | .bool _, _, _ => settled_of_plain rfl fun _ same => nomatch same
  | .number _, _, _ => settled_of_plain rfl fun _ same => nomatch same
  | .missingPackage _, _, _ => settled_of_plain rfl fun _ same => nomatch same
  | .string value, _, settled =>
      settled (keyPath, value) (List.mem_singleton.mpr rfl)
  | .sequence items, unique, settled =>
      settled_sequence (Settled.substituteItems keyPath 0 items unique settled)
  | .mapping entries, ⟨distinct, unique⟩, settled => by
      refine settled_ofEntries ?_
        (Settled.substituteEntries keyPath entries unique settled)
      simpa using distinct

theorem Settled.substituteItems (keyPath : KeyPath) (index : Nat) :
    ∀ items : List Node, ItemsHaveUniqueKeys items →
      (∀ string ∈ stringsOfItems keyPath index items,
        (meaning string.2).Settled mayStay) →
      ∀ item ∈ Node.substituteItems meaning items, item.Settled mayStay
  | [], _, _ => fun _ none => absurd none List.not_mem_nil
  | item :: rest, ⟨unique, uniqueLater⟩, settled => by
      obtain ⟨here, later⟩ := List.forall_mem_append.mp settled
      rw [Node.substituteItems, List.forall_mem_cons]
      exact ⟨Settled.substitute _ item unique here,
        Settled.substituteItems keyPath (index + 1) rest uniqueLater later⟩

theorem Settled.substituteEntries (keyPath : KeyPath) :
    ∀ entries : List (String × Node), EntriesHaveUniqueKeys entries →
      (∀ string ∈ stringsOfEntries keyPath entries,
        (meaning string.2).Settled mayStay) →
      ∀ entry ∈ Node.substituteEntries meaning entries, entry.2.Settled mayStay
  | [], _, _ => fun _ none => absurd none List.not_mem_nil
  | (key, value) :: rest, ⟨unique, uniqueLater⟩, settled => by
      obtain ⟨here, later⟩ := List.forall_mem_append.mp settled
      rw [Node.substituteEntries, List.forall_mem_cons]
      exact ⟨Settled.substitute _ value unique here,
        Settled.substituteEntries keyPath rest uniqueLater later⟩

end

end Substitution

end ConfigTree.Node
