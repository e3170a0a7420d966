import ConfigTree.Proofs.Node.Places
import ConfigTree.Proofs.Resolver.Modular

/-!
# What becomes of the mappings of a tree

Every part of a tree comes out as it does alone (`result_part`). A mapping whose
keys are the numbers from zero on comes out as a sequence in the order of the
numbers, any other one with its keys as they are, and a sequence item by item,
wherever in the tree they stand (`mappings_come_out_by_their_keys`).
-/

namespace ConfigTree

/-- What a part of a tree comes out as, made of what its own parts come out as:
a mapping as a sequence if its keys are numbers, a string as whatever it stands
for. -/
def Node.ComesOutAs (resolves : Node → Node → Prop) : Node → Node → Prop
  | .mapping entries, result =>
    if IsNumbering (entries.map Prod.fst) then
      ∃ items, result = .sequence items ∧ items.length = entries.length ∧
        ∀ index < entries.length, ∃ value item,
          entries.lookup (toString index) = some value ∧
            items[index]? = some item ∧ resolves value item
    else
      ∃ others, result = .mapping others ∧
        List.Forall₂
          (fun entry other => other.1 = entry.1 ∧ resolves entry.2 other.2)
          entries others
  | .sequence items, result =>
      ∃ others, result = .sequence others ∧ List.Forall₂ resolves items others
  | .string value, result => resolves (.string value) result
  | node, result => result = node

namespace Node

variable {meaning : String → Node} {resolves : Node → Node → Prop}

/-- Whatever the strings of a tree stand for, its mappings become what their
keys say. -/
theorem comesOutAs_substitute {tree : Node} (unique : tree.HasUniqueKeys)
    (each :
      ∀ part, Occurs part tree → resolves part (part.substitute meaning)) :
    tree.ComesOutAs resolves (tree.substitute meaning) := by
  cases tree with
  | null => rfl
  | bool value => rfl
  | number value => rfl
  | missingPackage name => rfl
  | string value => exact each _ .here
  | sequence items =>
      refine ⟨_, rfl, ?_⟩
      rw [substituteItems_eq_map, List.forall₂_map_right_iff, List.forall₂_same]
      exact fun item member => each item (.item member .here)
  | mapping entries =>
      have keys :
          (substituteEntries meaning entries).map Prod.fst =
            entries.map Prod.fst :=
        keys_substituteEntries entries
      have distinct :
          ((substituteEntries meaning entries).map Prod.fst).Nodup := by
        rw [keys]
        exact unique.1
      have eachValue :
          ∀ {key value},
            (key, value) ∈ entries →
              resolves value (value.substitute meaning) :=
        fun member => each _ (.entry member .here)
      rw [ComesOutAs]
      by_cases numbering : IsNumbering (entries.map Prod.fst)
      · rw [if_pos numbering, substitute]
        rw [← keys] at numbering
        obtain ⟨items, numbered, same⟩ :=
          ofEntries_of_isNumbering distinct numbering
        have lengths :
            (substituteEntries meaning entries).length = entries.length := by
          grind
        refine ⟨items, same, (length_of_numbered? numbered).trans lengths, ?_⟩
        intro index below
        obtain ⟨item, found, there⟩ :=
          getElem?_of_numbered? numbered (lengths ▸ below)
        rw [lookup_substituteEntries, Option.map_eq_some_iff] at found
        obtain ⟨value, found, rfl⟩ := found
        exact ⟨value, _, found, there, eachValue (Keyed.mem_of_lookup found)⟩
      · rw [if_neg numbering, substitute]
        rw [← keys] at numbering
        refine ⟨_, ofEntries_of_not_isNumbering distinct numbering, ?_⟩
        rw [substituteEntries_eq_map, List.forall₂_map_right_iff,
          List.forall₂_same]
        exact fun entry member => ⟨rfl, eachValue member⟩

end Node

namespace Setting

variable {setting : Setting} {cache : PackageCache} {resolving : List Path}
  {directory : Path} {tree node part : Node}

/-- A part of a tree that comes out comes out alone, and with the same meanings
of its strings. -/
theorem result_of_occurs
    (ended : setting.result cache resolving directory tree = .ok node)
    (occurs : Node.Occurs part tree) :
    setting.result cache resolving directory part =
      .ok (part.substitute (setting.meaningIn cache resolving directory)) := by
  apply result_eq_ok_substitute
  rintro ⟨keyPath, value⟩ member
  have inPart : Node.Occurs (.string value) part :=
    (Node.mem_strings_iff [] part).mp ⟨keyPath, member⟩
  obtain ⟨path, inTree⟩ :=
    (Node.mem_strings_iff [] tree).mpr (inPart.trans occurs)
  exact result_eq_ok_iff.mp ⟨node, ended⟩ (path, value) inTree

/-- What a part of a tree comes out as alone stands at the part's place in what
the tree comes out as. This holds within files as well, whichever are being
resolved. -/
theorem result_part
    (unique : tree.HasUniqueKeys)
    (ended : setting.result cache resolving directory tree = .ok node)
    {way : KeyPath} (there : tree.at? way = some part) :
    ∃ result, node.at? (tree.place way) = some result ∧
      setting.result cache resolving directory part = .ok result ∧
      part.ComesOutAs
        (fun value result =>
          setting.result cache resolving directory value = .ok result) result ∧
      ∀ entries, part = .mapping entries → entries.length ≤ wordLimit →
        ∃ others,
          List.Forall₂ (fun entry other : String × Node => other.1 = entry.1 ∧
            setting.result cache resolving directory entry.2 =
              .ok other.2) entries others ∧
          Node.inOnePass? others = some result := by
  have occurs := Node.occurs_of_at? there
  have uniquePart := Node.hasUniqueKeys_of_occurs occurs unique
  refine ⟨part.substitute (setting.meaningIn cache resolving directory), ?_,
    result_of_occurs ended occurs, ?_, ?_⟩
  · rw [eq_substitute_of_result ended]
    exact Node.at?_substitute unique there
  · exact Node.comesOutAs_substitute uniquePart fun inner within =>
      result_of_occurs ended (within.trans occurs)
  · rintro entries rfl short
    refine ⟨Node.substituteEntries (setting.meaningIn cache resolving directory)
        entries, ?_, ?_⟩
    · rw [Node.substituteEntries_eq_map, List.forall₂_map_right_iff,
        List.forall₂_same]
      exact fun entry member =>
        ⟨rfl, result_of_occurs ended (.trans (.entry member .here) occurs)⟩
    · rw [Node.substitute]
      apply Node.inOnePass?_eq
      · simpa using uniquePart.1
      · grind

end Setting

/-- In a tree that is resolved every mapping becomes what its keys alone say, at
every depth and whatever its values are or come out as: a sequence of the values
in the order of the numbers if the keys are the numbers from zero on, and the
same keys in the same order if they are not. Each value comes out as it does
alone. Sequences keep their items, and what is no string, mapping or sequence
stays as it is. One pass over the keys comes to the same and drops no value. -/
theorem mappings_come_out_by_their_keys
    (resolver : Resolver)
    (files : FileSystem)
    (source : PackageSource)
    (cache : PackageCache)
    {tree node : Node}
    (unique : tree.HasUniqueKeys)
    (resolved :
      (resolver.resolveWithCache files source cache tree).1 = .ok node)
    {way : KeyPath} {part : Node} (there : tree.at? way = some part) :
    let resolves :=
      fun value result =>
        (resolver.resolveWithCache files source cache value).1 = .ok result
    ∃ result,
      node.at? (tree.place way) = some result ∧ resolves part result ∧
      part.ComesOutAs resolves result ∧
      ∀ entries,
        part = .mapping entries → entries.length ≤ wordLimit →
          ∃ others,
            List.Forall₂
              (fun entry other : String × Node =>
                other.1 = entry.1 ∧ resolves entry.2 other.2) entries others ∧
            Node.inOnePass? others = some result := by
  obtain ⟨base, seen, _⟩ :=
    Setting.exists_run_of_resolveWithCache resolver files source cache tree
  have alone :
      ∀ value : Node,
        (resolver.resolveWithCache files source cache value).1 =
          Setting.result
            ⟨files, source.search files, resolver.options.resolveNested⟩ cache
            [] base value := by
    intro value
    unfold Resolver.resolveWithCache
    rw [seen]
    rfl
  simp only [alone] at resolved ⊢
  exact Setting.result_part unique resolved there

theorem mappings_come_out_by_their_keys_listed :
    let resolver := Resolver.ofText "/" .default
    let tree :=
      Node.mapping [("list", .mapping [("1", .string "b"), ("0", .null)])]
    tree.HasUniqueKeys ∧
      (resolver.resolveWithCache ⟨[], []⟩ (.listed []) .empty tree).1 =
        .ok (.mapping [("list", .sequence [.null, .string "b"])]) ∧
      tree.at? [.key "list"] =
        some (.mapping [("1", .string "b"), ("0", .null)]) ∧
      tree.place [.key "list", .key "1"] = [.key "list", .position 1] ∧
      ∃ result,
        (Node.mapping [("list", .sequence [.null, .string "b"])]).at?
            (tree.place [.key "list"]) = some result := by
  intro resolver tree
  have unique : tree.HasUniqueKeys := by
    simp [tree, Node.HasUniqueKeys, Node.EntriesHaveUniqueKeys]
  have resolved :
      (resolver.resolveWithCache ⟨[], []⟩ (.listed []) .empty tree).1 =
        .ok (.mapping [("list", .sequence [.null, .string "b"])]) := by
    rfl
  have there :
      tree.at? [.key "list"] =
        some (.mapping [("1", .string "b"), ("0", .null)]) := by
    rfl
  obtain ⟨result, placed, _⟩ :=
    mappings_come_out_by_their_keys resolver ⟨[], []⟩ (.listed []) .empty unique
      resolved there
  exact ⟨unique, resolved, there, by decide, result, placed⟩

end ConfigTree
