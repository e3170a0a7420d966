import ConfigTree.Proofs.Keyed
import ConfigTree.Resolver.Traversal
import Mathlib.Data.List.Nodup
import Mathlib.Data.List.Perm.Subperm

/-!
# Numbered mappings

A mapping is numbered by its keys alone: there are some, and they are the
numbers from zero on (`IsNumbering`). Main statements: the values of a numbered
mapping come in the order of the numbers (`getElem?_of_numbered?`,
`exists_numbered?_iff`), and one pass over the keys, which reads each as a
number of a machine word and puts its position into the slot of that number,
comes to the same order and loses no value (`inOnePass?_eq`).
-/

namespace ConfigTree

/-- The keys are the numbers from zero on, in decimal digits, up to some number,
and no other; there is at least one. -/
def IsNumbering (keys : List String) : Prop :=
  ∃ count, 0 < count ∧ ∀ key, key ∈ keys ↔ ∃ index < count, key = toString index

private theorem Node.toString_injective
    {m n : Nat} (same : toString m = toString n) :
    m = n := by
  have digits : Nat.toDigits 10 m = Nat.toDigits 10 n := by
    rw [← Nat.toList_repr, ← Nat.toList_repr]
    exact congrArg String.toList same
  rw [← Nat.ofDigitChars_ten_toDigits (n := m), digits,
    Nat.ofDigitChars_ten_toDigits]

theorem nodup_numbers (count : Nat) : ((List.range count).map toString).Nodup :=
  List.nodup_range.map fun _ _ => Node.toString_injective

@[simp]
theorem mem_numbers_iff
    {count : Nat}
    {key : String} :
    key ∈ (List.range count).map toString ↔
      ∃ index < count, key = toString index := by
  rw [List.mem_map]
  simp only [List.mem_range, eq_comm]

/-- Different keys that are the numbers up to a count are as many as it says. -/
theorem length_of_numbers
    {keys : List String}
    {count : Nat}
    (distinct : keys.Nodup)
    (isKey : ∀ key, key ∈ keys ↔ ∃ index < count, key = toString index) :
    keys.length = count := by
  have perm : keys.Perm ((List.range count).map toString) := by
    apply (List.perm_ext_iff_of_nodup distinct (nodup_numbers count)).mpr
    exact fun key => (isKey key).trans mem_numbers_iff.symm
  simpa using perm.length_eq

/-- Different keys are a numbering if they are the numbers below how many keys
there are. -/
theorem isNumbering_iff
    {keys : List String}
    (distinct : keys.Nodup) :
    IsNumbering keys ↔
      keys ≠ [] ∧
        ∀ key, key ∈ keys ↔ ∃ index < keys.length, key = toString index := by
  constructor
  · rintro ⟨count, positive, isKey⟩
    obtain rfl := length_of_numbers distinct isKey
    exact ⟨List.ne_nil_of_length_pos positive, isKey⟩
  · rintro ⟨nonempty, isKey⟩
    exact ⟨_, List.length_pos_of_ne_nil nonempty, isKey⟩

/-- The numbers below how many keys a numbering has are keys. -/
theorem mem_of_isNumbering
    {keys : List String}
    {index : Nat}
    (distinct : keys.Nodup)
    (numbering : IsNumbering keys)
    (below : index < keys.length) :
    toString index ∈ keys :=
  (((isNumbering_iff distinct).mp numbering).2 _).mpr ⟨index, below, rfl⟩

/-- Keys are a numbering if they are the numbers up to a count that is at most
how many keys there are. -/
theorem isNumbering_iff_of_bounded
    {keys : List String} :
    (∃ count < keys.length + 1, 0 < count ∧
        (∀ key ∈ keys, ∃ index < count, key = toString index) ∧
        ∀ index < count, toString index ∈ keys) ↔
      IsNumbering keys := by
  constructor
  · rintro ⟨count, _, positive, numbers, all⟩
    refine ⟨count, positive, fun key => ⟨numbers key, ?_⟩⟩
    rintro ⟨index, below, rfl⟩
    exact all index below
  · rintro ⟨count, positive, isKey⟩
    have all : (List.range count).map toString ⊆ keys :=
      fun key member => (isKey key).mpr (mem_numbers_iff.mp member)
    have bounded : count ≤ keys.length := by
      simpa using ((nodup_numbers count).subperm all).length_le
    refine ⟨count, by omega, positive, fun key => (isKey key).mp, ?_⟩
    exact fun index below => (isKey _).mpr ⟨index, below, rfl⟩

instance (keys : List String) : Decidable (IsNumbering keys) :=
  decidable_of_iff _ isNumbering_iff_of_bounded

/-- Different keys as many as they are, each of them a number below how many
there are, are all these numbers. -/
theorem isNumbering_of_subset
    {keys : List String}
    (nonempty : keys ≠ [])
    (distinct : keys.Nodup)
    (numbers : ∀ key ∈ keys, ∃ index < keys.length, key = toString index) :
    IsNumbering keys := by
  have among : keys ⊆ (List.range keys.length).map toString :=
    fun key member => mem_numbers_iff.mpr (numbers key member)
  have perm : keys.Perm ((List.range keys.length).map toString) :=
    (distinct.subperm among).perm_of_length_le (by simp)
  refine ⟨_, List.length_pos_of_ne_nil nonempty, fun key => ?_⟩
  rw [perm.mem_iff, mem_numbers_iff]

/-- The numbers below how many keys there are, all among the keys, are all the
keys. -/
theorem isNumbering_of_superset
    {keys : List String}
    (nonempty : keys ≠ [])
    (all : ∀ index < keys.length, toString index ∈ keys) :
    IsNumbering keys := by
  have among : (List.range keys.length).map toString ⊆ keys := by
    intro key member
    obtain ⟨index, below, rfl⟩ := mem_numbers_iff.mp member
    exact all index below
  have perm : ((List.range keys.length).map toString).Perm keys :=
    ((nodup_numbers _).subperm among).perm_of_length_le (by simp)
  refine ⟨_, List.length_pos_of_ne_nil nonempty, fun key => ?_⟩
  rw [← perm.mem_iff, mem_numbers_iff]

namespace Node

variable {entries : List (String × Node)} {items : List Node}

/-! ## The values of a numbered mapping -/

private theorem length_of_mapM
    {α β : Type} {f : α → Option β} :
    ∀ {list : List α} {items : List β}, list.mapM f = some items →
      items.length = list.length ∧
        ∀ pair ∈ list.zip items, f pair.1 = some pair.2
  | [], items, found => by
      obtain rfl : items = [] := by simpa using found.symm
      simp
  | first :: rest, items, found => by
      rw [List.mapM_cons] at found
      obtain ⟨here, atFirst, found⟩ := Option.bind_eq_some_iff.mp found
      obtain ⟨others, atRest, found⟩ := Option.bind_eq_some_iff.mp found
      obtain rfl := Option.some.inj found
      obtain ⟨sameLength, each⟩ := length_of_mapM atRest
      refine ⟨by simp [sameLength], ?_⟩
      rw [List.zip_cons_cons, List.forall_mem_cons]
      exact ⟨atFirst, each⟩

private theorem mapM_of_numbered? (numbered : numbered? entries = some items) :
    entries ≠ [] ∧
      (List.range entries.length).mapM
          (fun index => entries.lookup (toString index)) = some items := by
  unfold numbered? at numbered
  cases empty : entries.isEmpty with
  | true =>
      rw [empty] at numbered
      cases numbered
  | false =>
      rw [empty] at numbered
      exact ⟨by simpa using empty, numbered⟩

theorem length_of_numbered?
    (numbered : numbered? entries = some items) :
    items.length = entries.length := by
  have lengths := (length_of_mapM (mapM_of_numbered? numbered).2).1
  rwa [List.length_range] at lengths

/-- The values of a numbered mapping stand in the order of the numbers that are
their keys. -/
theorem getElem?_of_numbered?
    (numbered : numbered? entries = some items)
    {index : Nat}
    (below : index < entries.length) :
    ∃ value,
      entries.lookup (toString index) = some value ∧
      items[index]? = some value := by
  have length := length_of_numbered? numbered
  obtain ⟨_, each⟩ := length_of_mapM (mapM_of_numbered? numbered).2
  obtain ⟨value, present⟩ : ∃ value, items[index]? = some value := by
    have there : index < items.length := by omega
    exact ⟨_, List.getElem?_eq_getElem there⟩
  have paired : (index, value) ∈ (List.range entries.length).zip items := by
    apply List.mem_of_getElem? (i := index)
    rw [List.getElem?_zip_eq_some]
    exact ⟨by simp [below], present⟩
  exact ⟨value, each _ paired, present⟩

private theorem exists_mapM
    {α β : Type}
    {f : α → Option β}
    {list : List α}
    (all : ∀ x ∈ list, ∃ y, f x = some y) :
    ∃ found, list.mapM f = some found := by
  induction list with
  | nil => exact ⟨[], by simp⟩
  | cons first rest inductionHypothesis =>
      obtain ⟨⟨y, here⟩, later⟩ := List.forall_mem_cons.mp all
      obtain ⟨found, atRest⟩ := inductionHypothesis later
      exact ⟨y :: found, by simp [here, atRest]⟩

/-- The items of a numbered mapping are its values, each of them once. -/
theorem numbered?_perm
    {entries : List (String × Node)}
    {items : List Node}
    (numbered : numbered? entries = some items) :
    items.Perm (entries.map Prod.snd) := by
  obtain ⟨sameLength, each⟩ := length_of_mapM (mapM_of_numbered? numbered).2
  let pairs := ((List.range entries.length).map toString).zip items
  have lengths :
      ((List.range entries.length).map toString).length = items.length := by
    rw [List.length_map, sameLength]
  have keys : pairs.map Prod.fst = (List.range entries.length).map toString :=
    List.map_fst_zip (Nat.le_of_eq lengths)
  have values : pairs.map Prod.snd = items :=
    List.map_snd_zip (Nat.le_of_eq lengths.symm)
  have distinct : pairs.Nodup := by
    apply List.Nodup.of_map Prod.fst
    rw [keys]
    exact nodup_numbers _
  have among : pairs ⊆ entries := by
    intro pair member
    have mapped :
        pairs =
          ((List.range entries.length).zip items).map
            (Prod.map toString id) := by
      simp [pairs, List.zip_map_left]
    rw [mapped] at member
    obtain ⟨numberedPair, inZip, rfl⟩ := List.mem_map.mp member
    exact Keyed.mem_of_lookup (each numberedPair inZip)
  have whole : pairs.length = entries.length := by
    simp [pairs, sameLength]
  have perm : pairs.Perm entries :=
    (distinct.subperm among).perm_of_length_le (Nat.le_of_eq whole.symm)
  rw [← values]
  exact perm.map Prod.snd

/-- Whether a mapping is numbered is seen from its keys. -/
theorem exists_numbered?_iff
    (distinct : (entries.map Prod.fst).Nodup) :
    (∃ items, numbered? entries = some items) ↔
      IsNumbering (entries.map Prod.fst) := by
  constructor
  · rintro ⟨items, numbered⟩
    obtain ⟨nonempty, _⟩ := mapM_of_numbered? numbered
    apply isNumbering_of_superset (by simpa using nonempty)
    intro index below
    rw [List.length_map] at below
    obtain ⟨value, found, _⟩ := getElem?_of_numbered? numbered below
    exact List.mem_map_of_mem (Keyed.mem_of_lookup found)
  · intro numbering
    obtain ⟨nonempty, isKey⟩ := (isNumbering_iff distinct).mp numbering
    rw [numbered?, if_neg (by simpa using nonempty)]
    apply exists_mapM
    intro index below
    apply Keyed.exists_lookup_of_mem
    exact (isKey _).mpr ⟨index, by simpa using below, rfl⟩

theorem ofEntries_of_not_isNumbering
    (distinct : (entries.map Prod.fst).Nodup)
    (other : ¬IsNumbering (entries.map Prod.fst)) :
    ofEntries entries = .mapping entries := by
  unfold ofEntries
  cases numbered : numbered? entries with
  | none => rfl
  | some items =>
      exact absurd ((exists_numbered?_iff distinct).mp ⟨items, numbered⟩) other

theorem ofEntries_of_isNumbering
    (distinct : (entries.map Prod.fst).Nodup)
    (numbering : IsNumbering (entries.map Prod.fst)) :
    ∃ items,
      numbered? entries = some items ∧ ofEntries entries = .sequence items := by
  obtain ⟨items, numbered⟩ := (exists_numbered?_iff distinct).mpr numbering
  exact ⟨items, numbered, by rw [ofEntries, numbered]⟩

end Node

/-! ## Keys as numbers of machine words -/

private theorem le_ofDigitChars
    (digits : List Char) :
    ∀ value, value ≤ Nat.ofDigitChars 10 digits value := by
  induction digits with
  | nil => exact fun value => Nat.le_refl value
  | cons c rest inductionHypothesis =>
      intro value
      rw [Nat.ofDigitChars_cons]
      exact Nat.le_trans (by omega) (inductionHypothesis _)

private theorem wordFrom?_of_digits
    {digits : List Char} (each : ∀ c ∈ digits, c.isDigit = true) :
    ∀ {value : Nat}, Nat.ofDigitChars 10 digits value < wordLimit →
      wordFrom? value digits = some (Nat.ofDigitChars 10 digits value) := by
  induction digits with
  | nil => exact fun _ => rfl
  | cons c rest inductionHypothesis =>
      intro value fits
      obtain ⟨isDigit, later⟩ := List.forall_mem_cons.mp each
      rw [Nat.ofDigitChars_cons] at fits ⊢
      have next : 10 * value + (c.toNat - '0'.toNat) < wordLimit :=
        Nat.lt_of_le_of_lt (le_ofDigitChars rest _) fits
      rw [wordFrom?, if_pos isDigit]
      dsimp only
      rw [if_pos next]
      exact inductionHypothesis later fits

/-- A number that fits a machine word is read back from its digits. -/
theorem word?_toString
    {index : Nat} (fits : index < wordLimit) :
    word? (toString index) = some index := by
  have written : (toString index).toList = Nat.toDigits 10 index :=
    Nat.toList_repr
  have isDigit : ∀ c ∈ Nat.toDigits 10 index, c.isDigit = true :=
    fun c member => Nat.isDigit_of_mem_toDigits (by decide) (by decide) member
  have read : wordFrom? 0 (Nat.toDigits 10 index) = some index := by
    have whole : Nat.ofDigitChars 10 (Nat.toDigits 10 index) 0 = index :=
      Nat.ofDigitChars_ten_toDigits
    rw [wordFrom?_of_digits isDigit (whole.symm ▸ fits), whole]
  unfold word?
  rw [written]
  split
  · rename_i none
    exact absurd none Nat.toDigits_ne_nil
  · rename_i sign
    exact absurd (isDigit '+' (by simp [sign])) (by decide)
  · rename_i sign
    exact absurd (isDigit '+' (by simp [sign])) (by decide)
  · exact read

/-! ## One pass over the keys -/

/-- The slots of the numbers below a count, when the given keys are in them. -/
def slotsOf (count : Nat) (keys : List String) : List (Option Nat) :=
  (List.range count).map fun index => keys.idxOf? (toString index)

private theorem idxOf?_concat
    {keys : List String} {key : String} (fresh : key ∉ keys) (other : String) :
    (keys ++ [key]).idxOf? other =
      if other = key then some keys.length else keys.idxOf? other := by
  unfold List.idxOf?
  rw [List.findIdx?_append]
  by_cases same : other = key
  · subst same
    have absent : keys.findIdx? (· == other) = none :=
      List.idxOf?_eq_none_iff.mpr fresh
    simp [absent]
  · have differs : (key == other) = false :=
      beq_eq_false_iff_ne.mpr fun again => same again.symm
    simp [same, differs]

private theorem getElem?_slotsOf
    {count index : Nat} (below : index < count) (keys : List String) :
    (slotsOf count keys)[index]? = some (keys.idxOf? (toString index)) := by
  simp [slotsOf, below]

private theorem slotsOf_concat
    {keys : List String}
    {index : Nat}
    (count : Nat)
    (fresh : toString index ∉ keys) :
    slotsOf count (keys ++ [toString index]) =
      (slotsOf count keys).set index (some keys.length) := by
  apply List.ext_getElem?
  intro other
  by_cases below : other < count
  · rw [getElem?_slotsOf below, idxOf?_concat fresh]
    by_cases same : other = index
    · subst same
      rw [List.getElem?_set_self (by simpa [slotsOf] using below), if_pos rfl]
    · rw [if_neg fun again => same (Node.toString_injective again),
        List.getElem?_set_ne (Ne.symm same), getElem?_slotsOf below]
  · rw [List.getElem?_eq_none (by simpa [slotsOf] using below),
      List.getElem?_eq_none (by simpa [slotsOf] using below)]

/-- A number below the count is put into its slot. -/
theorem putKey?_of_number
    {count index : Nat}
    {keys : List String}
    (short : count ≤ wordLimit)
    (below : index < count)
    (fresh : toString index ∉ keys) :
    putKey? (slotsOf count keys) keys.length (toString index) =
      some (slotsOf count (keys ++ [toString index])) := by
  have read := word?_toString (Nat.lt_of_lt_of_le below short)
  have empty : (slotsOf count keys)[index]? = some none := by
    rw [getElem?_slotsOf below, List.idxOf?_eq_none_iff.mpr fresh]
  rw [putKey?, read, Option.bind_some, if_pos ⟨rfl, empty⟩,
    slotsOf_concat count fresh]

/-- Any other key ends the pass. -/
theorem putKey?_of_other
    {count : Nat}
    {keys : List String}
    {key : String}
    (other : ¬∃ index < count, key = toString index) :
    putKey? (slotsOf count keys) keys.length key = none := by
  rw [putKey?, Option.bind_eq_none_iff]
  rintro index -
  apply if_neg
  rintro ⟨written, empty⟩
  have below : index < (slotsOf count keys).length :=
    (List.getElem?_eq_some_iff.mp empty).1
  exact other ⟨index, by simpa [slotsOf] using below, written.symm⟩

/-- The pass comes through different keys exactly if all are numbers below the
count, and fills the slots with them. The induction is on the keys that are
left; the slots are those of the keys before them. -/
theorem putKeys?_eq
    {count : Nat} (short : count ≤ wordLimit) (later : List String) :
    ∀ {earlier : List String}, (earlier ++ later).Nodup →
      ((∀ key ∈ later, ∃ index < count, key = toString index) →
        putKeys? (slotsOf count earlier) earlier.length later =
          some (slotsOf count (earlier ++ later))) ∧
      ((∃ key ∈ later, ¬∃ index < count, key = toString index) →
        putKeys? (slotsOf count earlier) earlier.length later = none) := by
  induction later with
  | nil =>
      intro earlier _
      refine ⟨fun _ => by rw [putKeys?, List.append_nil], ?_⟩
      rintro ⟨key, member, _⟩
      exact absurd member List.not_mem_nil
  | cons key rest inductionHypothesis =>
      intro earlier distinct
      have fresh : key ∉ earlier := fun member =>
        List.disjoint_of_nodup_append distinct member (List.mem_cons_self ..)
      have distinctThen : ((earlier ++ [key]) ++ rest).Nodup := by
        rwa [List.append_assoc]
      obtain ⟨numbers, others⟩ := inductionHypothesis distinctThen
      rw [List.length_append, List.length_singleton] at numbers others
      by_cases number : ∃ index < count, key = toString index
      · obtain ⟨index, below, rfl⟩ := number
        have put := putKey?_of_number short below fresh
        constructor
        · intro each
          rw [putKeys?, put, Option.bind_some,
            numbers (List.forall_mem_cons.mp each).2, List.append_assoc]
          rfl
        · rintro ⟨other, member, odd⟩
          rcases List.mem_cons.mp member with rfl | among
          · exact absurd ⟨index, below, rfl⟩ odd
          · rw [putKeys?, put, Option.bind_some, others ⟨other, among, odd⟩]
      · constructor
        · intro each
          exact absurd (each key (List.mem_cons_self ..)) number
        · intro _
          rw [putKeys?, putKey?_of_other number, Option.bind_none]

/-- Different keys have an order exactly if they are a numbering: then no slot
is left empty, as there are as many slots as keys. -/
theorem keyOrder?_eq
    {keys : List String}
    (distinct : keys.Nodup)
    (short : keys.length ≤ wordLimit) :
    (IsNumbering keys → keyOrder? keys = some (slotsOf keys.length keys)) ∧
      (¬IsNumbering keys → keyOrder? keys = none) := by
  have start : List.replicate keys.length none = slotsOf keys.length [] := by
    simp [slotsOf, List.map_const']
  obtain ⟨numbers, others⟩ := @putKeys?_eq _ short keys [] distinct
  rw [List.nil_append] at numbers
  constructor
  · intro numbering
    obtain ⟨nonempty, isKey⟩ := (isNumbering_iff distinct).mp numbering
    rw [keyOrder?, if_neg (by simpa using nonempty), start]
    exact numbers fun key member => (isKey key).mp member
  · intro odd
    rw [keyOrder?]
    by_cases nonempty : keys = []
    · rw [if_pos (by simp [nonempty])]
    · rw [if_neg (by simpa using nonempty), start]
      apply others
      by_contra each
      push Not at each
      exact odd (isNumbering_of_subset nonempty distinct each)

/-- Values at different positions are all taken. -/
theorem takeInOrder?_of_distinct
    {α : Type}
    {valueAt : Nat → α}
    {positions : List Nat}
    (distinct : positions.Nodup) :
    ∀ {values : List (Option α)},
      (∀ position ∈ positions,
        values[position]? = some (some (valueAt position))) →
        takeInOrder? (positions.map some) values =
          some (positions.map valueAt) := by
  induction positions with
  | nil => exact fun _ => rfl
  | cons position rest inductionHypothesis =>
      intro values present
      obtain ⟨here, later⟩ := List.forall_mem_cons.mp present
      obtain ⟨fresh, distinctLater⟩ := List.nodup_cons.mp distinct
      have untouched :
          ∀ other ∈ rest,
            (values.set position none)[other]? =
              some (some (valueAt other)) := by
        intro other member
        have differs : position ≠ other := fun same => fresh (same ▸ member)
        rw [List.getElem?_set_ne differs]
        exact later other member
      rw [List.map_cons, takeInOrder?, here]
      dsimp only
      rw [inductionHypothesis distinctLater untouched]
      rfl

private theorem idxOf?_of_mem
    {keys : List String} {key : String} (member : key ∈ keys) :
    keys.idxOf? key = some (keys.idxOf key) := by
  obtain ⟨position, at_⟩ :=
    Option.isSome_iff_exists.mp (List.isSome_idxOf?.mpr member)
  rw [List.idxOf_eq_getD_idxOf?, at_, Option.getD_some]

/-- A key's first position among different keys is that of its value. -/
theorem getElem?_idxOf_of_lookup
    {entries : List (String × Node)}
    {key : String}
    {value : Node}
    (distinct : (entries.map Prod.fst).Nodup)
    (found : entries.lookup key = some value) :
    (entries.map Prod.snd)[(entries.map Prod.fst).idxOf key]? = some value := by
  have isKey : key ∈ entries.map Prod.fst :=
    List.mem_map_of_mem (Keyed.mem_of_lookup found)
  have here := List.getElem?_idxOf isKey
  rw [List.getElem?_map, Option.map_eq_some_iff] at here
  obtain ⟨⟨other, held⟩, present, same⟩ := here
  cases same
  have again := Keyed.lookup_of_mem distinct (List.mem_of_getElem? present)
  rw [List.getElem?_map, present, Option.map_some,
    Option.some.inj (again.symm.trans found)]

/-! ## The order that the pass finds -/

/-- Where the numbers stand among the keys of a numbering. -/
def positionsOf (keys : List String) : List Nat :=
  (List.range keys.length).map fun index => keys.idxOf (toString index)

/-- No slot of a numbering is left empty. -/
theorem slotsOf_of_isNumbering
    {keys : List String}
    (distinct : keys.Nodup)
    (numbering : IsNumbering keys) :
    slotsOf keys.length keys = (positionsOf keys).map some := by
  rw [slotsOf, positionsOf, List.map_map]
  apply List.map_congr_left
  intro index member
  exact idxOf?_of_mem
    (mem_of_isNumbering distinct numbering (List.mem_range.mp member))

/-- Different numbers stand at different positions. -/
theorem nodup_positionsOf
    {keys : List String}
    (distinct : keys.Nodup)
    (numbering : IsNumbering keys) :
    (positionsOf keys).Nodup := by
  refine List.Nodup.map_on ?_ List.nodup_range
  intro index member other _ same
  have isKey := mem_of_isNumbering distinct numbering (List.mem_range.mp member)
  exact Node.toString_injective ((List.idxOf_inj isKey).mp same)

/-- The value at a position of entries. -/
def Node.valueAt (entries : List (String × Node)) (position : Nat) : Node :=
  ((entries.map Prod.snd)[position]?).getD .null

/-- The value of a number stands at the position of the number. -/
theorem Node.getElem?_positionsOf
    {entries : List (String × Node)}
    {items : List Node}
    (distinct : (entries.map Prod.fst).Nodup)
    (numbered : numbered? entries = some items)
    {index : Nat}
    (below : index < entries.length) :
    ∃ value,
      items[index]? = some value ∧
      valueAt entries ((entries.map Prod.fst).idxOf (toString index)) = value ∧
      (entries.map fun entry => some entry.2)[(entries.map Prod.fst).idxOf
          (toString index)]? = some (some value) := by
  obtain ⟨value, found, there⟩ := getElem?_of_numbered? numbered below
  have here := getElem?_idxOf_of_lookup distinct found
  refine ⟨value, there, by rw [valueAt, here, Option.getD_some], ?_⟩
  rw [List.getElem?_map, Option.map_eq_some_iff] at here
  obtain ⟨entry, present, rfl⟩ := here
  rw [List.getElem?_map, present, Option.map_some]

/-- At the positions of the numbers stand the items of the numbered mapping. -/
theorem Node.map_positionsOf
    {entries : List (String × Node)}
    {items : List Node}
    (distinct : (entries.map Prod.fst).Nodup)
    (numbered : numbered? entries = some items) :
    (positionsOf (entries.map Prod.fst)).map (valueAt entries) = items := by
  have length := length_of_numbered? numbered
  apply List.ext_getElem?
  intro index
  by_cases below : index < entries.length
  · obtain ⟨value, there, same, _⟩ :=
      getElem?_positionsOf distinct numbered below
    rw [there, positionsOf, List.map_map, List.length_map, List.getElem?_map,
      List.getElem?_range below, Option.map_some, Function.comp_apply, same]
  · rw [List.getElem?_eq_none (by simpa [positionsOf] using below),
      List.getElem?_eq_none (by omega)]

/-- One pass over different keys decides as the numbers do, and it loses no
value. -/
theorem Node.inOnePass?_eq
    {entries : List (String × Node)}
    (distinct : (entries.map Prod.fst).Nodup)
    (short : entries.length ≤ wordLimit) :
    Node.inOnePass? entries = some (Node.ofEntries entries) := by
  obtain ⟨ordered, unordered⟩ :=
    keyOrder?_eq distinct (by rwa [List.length_map])
  unfold Node.inOnePass?
  by_cases numbering : IsNumbering (entries.map Prod.fst)
  · obtain ⟨items, numbered, same⟩ :=
      Node.ofEntries_of_isNumbering distinct numbering
    have values : ∀ position ∈ positionsOf (entries.map Prod.fst),
        (entries.map fun entry => some entry.2)[position]? =
            some (some (valueAt entries position)) := by
      intro position member
      obtain ⟨index, below, rfl⟩ := List.mem_map.mp member
      rw [List.length_map, List.mem_range] at below
      obtain ⟨value, _, held, present⟩ :=
        getElem?_positionsOf distinct numbered below
      rw [held, present]
    rw [ordered numbering, slotsOf_of_isNumbering distinct numbering]
    dsimp only
    rw [takeInOrder?_of_distinct (nodup_positionsOf distinct numbering) values,
      map_positionsOf distinct numbered, Option.map_some, same]
  · rw [unordered numbering,
      Node.ofEntries_of_not_isNumbering distinct numbering]

end ConfigTree
