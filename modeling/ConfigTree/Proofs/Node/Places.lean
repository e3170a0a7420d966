import ConfigTree.Proofs.Node.Parts

/-!
# Places in trees

A key path leads to a part of a tree, and what comes of the part stands where
the path leads to among what comes of the tree: a key of a numbered mapping has
become a position (`Node.place`). Main statements: a tree with a node in place
of each string has, at each place, the part with a node in place of each string
(`at?_substitute`), and the strings of a tree are those that occur in it
(`mem_strings_iff`).
-/

namespace ConfigTree.Node

/-- What stands right under a node. -/
def step? : Node → Segment → Option Node
  | .sequence items, .position index => items[index]?
  | .mapping entries, .key key => entries.lookup key
  | _, _ => none

/-- The part of a tree that a key path leads to. -/
def at? : Node → KeyPath → Option Node
  | node, [] => some node
  | node, segment :: rest => (node.step? segment).bind (·.at? rest)

/-- What a key of a mapping with the given keys leads to when the mapping has
become what it makes. -/
def placeOfKey (keys : List String) (key : String) : Segment :=
  if IsNumbering keys then
    .position (((List.range keys.length).map toString).idxOf key)
  else
    .key key

/-- The key path of a part of a tree among what comes of the tree. -/
def place : Node → KeyPath → KeyPath
  | _, [] => []
  | node, segment :: rest =>
    let below := match node.step? segment with
      | some part => part.place rest
      | none => rest
    match node, segment with
    | .mapping entries, .key key =>
        placeOfKey (entries.map Prod.fst) key :: below
    | _, _ => segment :: below

variable {tree part other : Node} {meaning : String → Node}

/-! ## Parts -/

theorem Occurs.trans
    (deeper : Occurs part other) (occurs : Occurs other tree) :
    Occurs part tree := by
  induction occurs with
  | here => exact deeper
  | item member _ inductionHypothesis => exact .item member inductionHypothesis
  | entry member _ inductionHypothesis =>
      exact .entry member inductionHypothesis

private theorem occurs_of_step?
    {segment : Segment} (found : tree.step? segment = some part) :
    Occurs part tree := by
  unfold step? at found
  split at found
  · exact .item (List.mem_of_getElem? found) .here
  · exact .entry (Keyed.mem_of_lookup found) .here
  · cases found

/-- What a key path leads to occurs in the tree. -/
theorem occurs_of_at?
    {way : KeyPath} :
    ∀ {tree : Node}, tree.at? way = some part → Occurs part tree := by
  induction way with
  | nil =>
      intro tree found
      cases found
      exact .here
  | cons segment rest inductionHypothesis =>
      intro tree found
      obtain ⟨between, step, below⟩ := Option.bind_eq_some_iff.mp found
      exact (inductionHypothesis below).trans (occurs_of_step? step)

/-- Keys are unique in every part of a tree in which they are. -/
theorem hasUniqueKeys_of_occurs
    (occurs : Occurs part tree) (unique : tree.HasUniqueKeys) :
    part.HasUniqueKeys := by
  induction occurs with
  | here => exact unique
  | item member _ inductionHypothesis =>
      exact inductionHypothesis (itemsHaveUniqueKeys_iff.mp unique _ member)
  | entry member _ inductionHypothesis =>
      exact inductionHypothesis (entriesHaveUniqueKeys_iff.mp unique.2 _ member)

mutual

/-- The strings that a tree is gone through for are those that occur in it. -/
theorem mem_strings_iff {value : String} (keyPath : KeyPath) :
    ∀ tree : Node,
      (∃ path, (path, value) ∈ tree.strings keyPath) ↔
        Occurs (.string value) tree
  | .null => iff_of_false (by simp [strings]) nofun
  | .bool _ => iff_of_false (by simp [strings]) nofun
  | .number _ => iff_of_false (by simp [strings]) nofun
  | .missingPackage _ => iff_of_false (by simp [strings]) nofun
  | .string other => by
      constructor
      · rintro ⟨path, member⟩
        cases List.mem_singleton.mp member
        exact .here
      · rintro ⟨⟩
        exact ⟨keyPath, List.mem_singleton.mpr rfl⟩
  | .sequence items => by
      rw [strings, mem_stringsOfItems_iff keyPath 0 items]
      constructor
      · rintro ⟨item, member, within⟩
        exact .item member within
      · rintro (_ | ⟨member, within⟩)
        exact ⟨_, member, within⟩
  | .mapping entries => by
      rw [strings, mem_stringsOfEntries_iff keyPath entries]
      constructor
      · rintro ⟨entry, member, within⟩
        exact .entry member within
      · rintro (_ | _ | ⟨member, within⟩)
        exact ⟨_, member, within⟩

theorem mem_stringsOfItems_iff
    {value : String} (keyPath : KeyPath) (index : Nat) :
    ∀ items : List Node,
      (∃ path, (path, value) ∈ stringsOfItems keyPath index items) ↔
        ∃ item ∈ items, Occurs (.string value) item
  | [] => by simp [stringsOfItems]
  | item :: rest => by
      simp only [stringsOfItems, List.mem_append, exists_or]
      rw [mem_strings_iff _ item,
        mem_stringsOfItems_iff keyPath (index + 1) rest,
        List.exists_mem_cons_iff]

theorem mem_stringsOfEntries_iff {value : String} (keyPath : KeyPath) :
    ∀ entries : List (String × Node),
      (∃ path, (path, value) ∈ stringsOfEntries keyPath entries) ↔
        ∃ entry ∈ entries, Occurs (.string value) entry.2
  | [] => by simp [stringsOfEntries]
  | (key, inner) :: rest => by
      simp only [stringsOfEntries, List.mem_append, exists_or]
      rw [mem_strings_iff _ inner, mem_stringsOfEntries_iff keyPath rest,
        List.exists_mem_cons_iff]

end

/-! ## What comes of the parts -/

@[grind =]
theorem substituteItems_eq_map
    (items : List Node) :
    substituteItems meaning items = items.map (·.substitute meaning) := by
  induction items with
  | nil => rfl
  | cons first rest inductionHypothesis =>
      rw [substituteItems, inductionHypothesis, List.map_cons]

@[simp]
theorem lookup_substituteEntries
    (entries : List (String × Node)) (key : String) :
    (substituteEntries meaning entries).lookup key =
      (entries.lookup key).map (·.substitute meaning) := by
  induction entries with
  | nil => rfl
  | cons first rest inductionHypothesis =>
      obtain ⟨other, value⟩ := first
      rw [substituteEntries, List.lookup_cons, List.lookup_cons,
        inductionHypothesis]
      cases key == other with
      | true => rfl
      | false => rfl

/-- The value of a key stands at the key's place in the node that entries
make. -/
theorem step?_ofEntries
    {entries : List (String × Node)}
    {key : String}
    {value : Node}
    (distinct : (entries.map Prod.fst).Nodup)
    (found : entries.lookup key = some value) :
    (ofEntries entries).step? (placeOfKey (entries.map Prod.fst) key) =
      some value := by
  by_cases numbering : IsNumbering (entries.map Prod.fst)
  · obtain ⟨items, numbered, same⟩ :=
      ofEntries_of_isNumbering distinct numbering
    obtain ⟨_, isKey⟩ := (isNumbering_iff distinct).mp numbering
    obtain ⟨index, below, rfl⟩ :=
      (isKey key).mp (List.mem_map_of_mem (Keyed.mem_of_lookup found))
    have number :
        ((List.range (entries.map Prod.fst).length).map toString).idxOf
            (toString index) = index := by
      have here :=
        List.Nodup.idxOf_getElem (nodup_numbers _) index (by simpa using below)
      simpa using here
    rw [List.length_map] at below
    obtain ⟨again, sought, placed⟩ := getElem?_of_numbered? numbered below
    rw [placeOfKey, if_pos numbering, number, same, step?, placed]
    exact sought.symm.trans found
  · rw [placeOfKey, if_neg numbering,
      ofEntries_of_not_isNumbering distinct numbering, step?, found]

/-- What comes of a part stands at the part's place. The induction is on the way
to the part. -/
theorem at?_substitute {way : KeyPath} :
    ∀ {tree : Node}, tree.HasUniqueKeys → tree.at? way = some part →
      (tree.substitute meaning).at? (tree.place way) =
        some (part.substitute meaning) := by
  induction way with
  | nil =>
      intro tree _ found
      cases found
      rfl
  | cons segment rest inductionHypothesis =>
      intro tree unique found
      obtain ⟨between, step, below⟩ := Option.bind_eq_some_iff.mp found
      have uniqueBetween :=
        hasUniqueKeys_of_occurs (occurs_of_step? step) unique
      have later := inductionHypothesis uniqueBetween below
      have stepped := step
      unfold step? at step
      split at step
      next items index =>
        have here :
            (sequence (substituteItems meaning items)).step? (.position index) =
              some (between.substitute meaning) := by
          rw [step?, substituteItems_eq_map, List.getElem?_map, step,
            Option.map_some]
        simp only [place, stepped, substitute, at?, here, Option.bind_some,
          later]
      next entries key =>
        have distinct :
            ((substituteEntries meaning entries).map Prod.fst).Nodup := by
          simpa using unique.1
        have value :
            (substituteEntries meaning entries).lookup key =
              some (between.substitute meaning) := by
          simp [step]
        have here := step?_ofEntries distinct value
        rw [keys_substituteEntries] at here
        simp only [place, stepped, substitute, at?, here, Option.bind_some,
          later]
      next => cases step

end ConfigTree.Node
