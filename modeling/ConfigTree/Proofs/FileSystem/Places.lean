import ConfigTree.Path.Lemmas
import ConfigTree.Proofs.FileSystem.Names

/-!
# Looking places up

What stands at a place is found by the text of the place if no link is on the
way (`find_placeText`), and a further slash at the start of a text changes
nothing (`locate_slash_append`).
-/

namespace ConfigTree

def Entry.isLink : Entry → Bool
  | .link _ => true
  | _ => false

namespace FileSystem

variable {files : FileSystem}

/-! ## Steps of a text -/

@[simp]
theorem steps_slash_append
    (text : String) :
    steps ("/" ++ text) = "" :: steps text := by
  unfold steps
  have layout : ("/" ++ text).toList = [] ++ '/' :: text.toList := by
    rw [String.toList_append]
    rfl
  rw [layout, List.splitOn_append_cons_self_of_not_mem List.not_mem_nil,
    List.map_cons]

theorem steps_intercalate
    {names : List String}
    (nonempty : names ≠ [])
    (proper : ∀ name ∈ names, IsEntryName name) :
    steps ("/".intercalate names) = names := by
  have unseparated : ∀ chars ∈ names.map String.toList, '/' ∉ chars := by
    intro chars member
    obtain ⟨name, among, rfl⟩ := List.mem_map.mp member
    exact (proper name among).2.2.2
  have someChars : names.map String.toList ≠ [] := by simpa using nonempty
  have slash : "/".toList = ['/'] := rfl
  unfold steps
  rw [String.toList_intercalate, slash,
    List.splitOn_intercalate '/' unseparated someChars, List.map_map]
  simp [Function.comp_def]

/-! ## Walks -/

@[simp]
theorem at?_root
    (files : FileSystem) :
    files.at? [] = some (.directory files.root) :=
  rfl

@[simp]
theorem walk_nil
    (links : Nat) (place : Place) :
    files.walk links place [] = .ok place := by
  rw [walk]

theorem walk_through_directory
    {place : Place}
    {children : List (String × Entry)}
    (inside : files.at? place = some (.directory children))
    (links : Nat) (rest : List String) :
    files.walk links place ("" :: rest) = files.walk links place rest := by
  rw [walk, inside]
  exact if_pos (Or.inl rfl)

/-- A step to an entry that is no link leads there. -/
theorem walk_name
    {place : Place}
    {children : List (String × Entry)}
    {name : String}
    {entry : Entry}
    (inside : files.at? place = some (.directory children))
    (proper : IsEntryName name)
    (short : name.utf8ByteSize ≤ longestName)
    (present : files.at? (name :: place) = some entry)
    (real : entry.isLink = false) (links : Nat) (rest : List String) :
    files.walk links place (name :: rest) =
      files.walk links (name :: place) rest := by
  obtain ⟨nonempty, notDot, notDots, _⟩ := proper
  rw [walk, inside]
  dsimp only
  rw [if_neg (not_or.mpr ⟨nonempty, notDot⟩), if_neg notDots,
    if_neg (Nat.not_lt.mpr short), present]
  cases entry with
  | link target => cases real
  | file content => rfl
  | directory children => rfl
  | device => rfl

/-- A step to a name that the directory does not hold leads nowhere. -/
theorem walk_missing
    {place : Place} {children : List (String × Entry)} {name : String}
    (inside : files.at? place = some (.directory children))
    (proper : IsEntryName name)
    (short : name.utf8ByteSize ≤ longestName)
    (missing : files.at? (name :: place) = none)
    (links : Nat)
    (rest : List String) :
    files.walk links place (name :: rest) = .error .notFound := by
  obtain ⟨nonempty, notDot, notDots, _⟩ := proper
  rw [walk, inside]
  dsimp only
  rw [if_neg (not_or.mpr ⟨nonempty, notDot⟩), if_neg notDots,
    if_neg (Nat.not_lt.mpr short), missing]

/-- Only directories are above an entry. -/
theorem exists_children_of_at?
    {place : Place}
    {name : String}
    {entry : Entry}
    (present : files.at? (name :: place) = some entry) :
    ∃ children, files.at? place = some (.directory children) := by
  rw [at?, Option.bind_eq_some_iff] at present
  obtain ⟨above, inside, child⟩ := present
  cases above with
  | directory children => exact ⟨children, inside⟩
  | file content => cases child
  | link target => cases child
  | device => cases child

private theorem exists_children_of_at?_append
    {place : Place} {entry : Entry} :
    ∀ {inner : List String},
      inner ≠ [] → files.at? (inner ++ place) = some entry →
        ∃ children, files.at? place = some (.directory children)
  | [], empty, _ => absurd rfl empty
  | [_], _, present => exists_children_of_at? present
  | _ :: next :: rest, _, present => by
      obtain ⟨children, inside⟩ := exists_children_of_at? present
      exact exists_children_of_at?_append (List.cons_ne_nil next rest) inside

/-- Names of directories lead into them, whatever comes behind. -/
theorem walk_append_of_at?
    {entry : Entry}
    (real : entry.isLink = false)
    (links : Nat)
    (rest : List String) :
    ∀ {way : List String} {place : Place},
      (∀ name ∈ way, IsEntryName name ∧ name.utf8ByteSize ≤ longestName) →
        files.at? (way.reverse ++ place) = some entry →
        files.walk links place (way ++ rest) =
          files.walk links (way.reverse ++ place) rest
  | [], _, _, _ => rfl
  | name :: way, place, allowed, present => by
      obtain ⟨⟨proper, short⟩, later⟩ := List.forall_mem_cons.mp allowed
      rw [List.reverse_cons, List.append_assoc, List.singleton_append]
        at present ⊢
      have here :
          ∃ first,
            files.at? (name :: place) = some first ∧
            first.isLink = false := by
        cases way with
        | nil => exact ⟨entry, present, real⟩
        | cons next others =>
            obtain ⟨children, inside⟩ :=
              exists_children_of_at?_append (by simp) present
            exact ⟨.directory children, inside, rfl⟩
      obtain ⟨first, found, plain⟩ := here
      obtain ⟨children, inside⟩ := exists_children_of_at? found
      rw [List.cons_append, walk_name inside proper short found plain]
      exact walk_append_of_at? real links rest later present

theorem walk_of_at?
    {entry : Entry}
    (real : entry.isLink = false)
    (links : Nat)
    {way : List String}
    {place : Place}
    (allowed : ∀ name ∈ way, IsEntryName name ∧ name.utf8ByteSize ≤ longestName)
    (present : files.at? (way.reverse ++ place) = some entry) :
    files.walk links place way = .ok (way.reverse ++ place) := by
  have whole := walk_append_of_at? real links [] allowed present
  rwa [List.append_nil, walk_nil] at whole

/-! ## Texts -/

theorem locate_slash_append
    {text : String}
    (rooted : text.toList.head? = some '/')
    (short : ("/" ++ text).utf8ByteSize < pathLimit) :
    files.locate ("/" ++ text) = files.locate text := by
  have nul :
      ("/" ++ text).toList.contains '\x00' = text.toList.contains '\x00' := by
    rw [String.toList_append, List.contains_append]
    rfl
  have nonempty : text ≠ "" := by
    intro empty
    subst empty
    cases rooted
  have longer : "/" ++ text ≠ "" := by
    intro empty
    have chars := congrArg String.toList empty
    rw [String.toList_append] at chars
    cases chars
  have shorter : text.utf8ByteSize < pathLimit := by
    rw [String.utf8ByteSize_append] at short
    omega
  have starts :
      start files.current ("/" ++ text) = start files.current text := by
    unfold start
    rw [rooted, String.toList_append]
    rfl
  have startsRoot : start files.current text = [] := if_pos rooted
  unfold locate
  rw [nul, if_neg nonempty, if_neg longer, if_neg (Nat.not_le.mpr short),
    if_neg (Nat.not_le.mpr shorter), starts, startsRoot, steps_slash_append]
  rw [walk_through_directory files.at?_root]

/-- A place whose text can be looked up. -/
structure HasText (place : Place) : Prop where
  names : ∀ name ∈ place, IsEntryName name ∧ name.utf8ByteSize ≤ longestName
  noNul : (placeText place).toList.contains '\x00' = false
  short : (placeText place).utf8ByteSize < pathLimit

instance (place : Place) : Decidable (HasText place) :=
  decidable_of_iff
    ((∀ name ∈ place, IsEntryName name ∧ name.utf8ByteSize ≤ longestName) ∧
      (placeText place).toList.contains '\x00' = false ∧
      (placeText place).utf8ByteSize < pathLimit)
    ⟨fun ⟨names, noNul, short⟩ => ⟨names, noNul, short⟩,
      fun spelled => ⟨spelled.names, spelled.noNul, spelled.short⟩⟩

/-- The text of a place leads to what stands there. A link leads elsewhere. -/
theorem walk_placeText
    {place : Place}
    {entry : Entry}
    (present : files.at? place = some entry)
    (real : entry.isLink = false)
    (allowed :
      ∀ name ∈ place, IsEntryName name ∧ name.utf8ByteSize ≤ longestName) :
    files.walk linkLimit [] (steps (placeText place)) = .ok place := by
  rw [placeText, steps_slash_append, walk_through_directory files.at?_root]
  by_cases top : place = []
  · subst top
    have nothing :
        steps ("/".intercalate ([] : List String).reverse) = [""] := by
      decide
    rw [nothing, walk_through_directory files.at?_root, walk]
  · have proper :
        ∀ name ∈ place.reverse,
          IsEntryName name ∧ name.utf8ByteSize ≤ longestName :=
      fun name member => allowed name (List.mem_reverse.mp member)
    have back : place.reverse.reverse ++ [] = place := by
      rw [List.reverse_reverse, List.append_nil]
    rw [steps_intercalate (by simpa using top) fun name member =>
      (proper name member).1]
    have whole := walk_of_at? real linkLimit proper (back.symm ▸ present)
    rwa [back] at whole

/-- A place is what its text leads to. -/
theorem locate_placeText
    (place : Place)
    {entry : Entry}
    (present : files.at? place = some entry)
    (real : entry.isLink = false)
    (spelled : HasText place) :
    files.locate (placeText place) = .ok place := by
  have rooted : (placeText place).toList.head? = some '/' :=
    head?_slash_append _
  have nonempty : placeText place ≠ "" := by
    intro empty
    rw [empty] at rooted
    cases rooted
  have starts : start files.current (placeText place) = [] := if_pos rooted
  unfold locate
  rw [spelled.noNul, if_neg Bool.false_ne_true, if_neg nonempty,
    if_neg (Nat.not_le.mpr spelled.short), starts,
    walk_placeText present real spelled.names]

/-- What stands at a place is found by its text. -/
theorem find_placeText
    (place : Place)
    {entry : Entry}
    (present : files.at? place = some entry)
    (real : entry.isLink = false)
    (spelled : HasText place) :
    files.find (placeText place) = .ok entry := by
  rw [find, locate_placeText place present real spelled]
  dsimp only
  rw [present]

@[simp]
theorem fromUTF8?_toUTF8
    (text : String) :
    String.fromUTF8? text.toUTF8 = some text :=
  dif_pos text.isValidUTF8

theorem readText_placeText
    (place : Place)
    {text : String}
    (present : files.at? place = some (.file text.toUTF8))
    (spelled : HasText place) :
    files.readText (placeText place) = .ok text := by
  rw [readText, find_placeText place present rfl spelled]
  dsimp only
  rw [fromUTF8?_toUTF8]

theorem find_ofAnchor {anchor : Anchor} (rooted : anchor ≠ .relative) :
    files.find (Path.ofAnchor anchor).text = .ok (.directory files.root) := by
  have found : files.find "/" = .ok (.directory files.root) :=
    find_placeText [] rfl rfl (by decide)
  cases anchor with
  | relative => exact absurd rfl rooted
  | root =>
      have text : (Path.ofAnchor .root).text = "/" := by decide
      rw [text, found]
  | share =>
      have text : (Path.ofAnchor .share).text = "/" ++ "/" := by decide
      have again : files.find ("/" ++ "/") = files.find "/" := by
        unfold find
        rw [locate_slash_append rfl (by decide)]
      rw [text, again, found]

/-- The root is a directory, and no text. -/
theorem readText_ofAnchor {anchor : Anchor} (rooted : anchor ≠ .relative) :
    files.readText (Path.ofAnchor anchor).text = .error .isDirectory := by
  rw [readText, find_ofAnchor rooted]

/-! ## Kinds of texts -/

theorem isDirectory_iff {text : String} :
    files.isDirectory text = true ↔
      ∃ place children,
        files.locate text = .ok place ∧
        files.at? place = some (.directory children) := by
  unfold isDirectory kind find
  cases files.locate text with
  | error obstacle => simp
  | ok place =>
      cases present : files.at? place with
      | none => simp [present]
      | some entry => cases entry <;> simp [present]

theorem isFile_iff {text : String} :
    files.isFile text = true ↔
      ∃ place content,
        files.locate text = .ok place ∧
        files.at? place = some (.file content) := by
  unfold isFile kind find
  cases files.locate text with
  | error obstacle => simp
  | ok place =>
      cases present : files.at? place with
      | none => simp [present]
      | some entry => cases entry <;> simp [present]

theorem hasEntry_iff {text : String} :
    files.hasEntry text = true ↔
      ∃ place entry,
        files.locate text = .ok place ∧ files.at? place = some entry := by
  unfold hasEntry kind find
  cases files.locate text with
  | error obstacle => simp
  | ok place =>
      cases present : files.at? place with
      | none => simp [present]
      | some entry => cases entry <;> simp [present]

end FileSystem

end ConfigTree
