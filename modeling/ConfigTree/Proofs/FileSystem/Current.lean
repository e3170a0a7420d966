import ConfigTree.Proofs.FileSystem.Absolute
import ConfigTree.Proofs.FileSystem.Cleaning
import ConfigTree.Proofs.Path.Normal

/-!
# Relative paths seen from the root

A relative path and the same path as it is seen from the root lead to the same
entry (`locate_seen`), and the second one is what the first one's text gives
when it is made absolute (`absolute_eq_seen`), unless a name of the current
directory is taken for something else than a name when the path is cleaned.
-/

namespace ConfigTree

/-! ## Trails -/

namespace Path

/-- Climbing takes back one name after the other, and stays at the root. -/
theorem iterate_up {anchor : Anchor} (rooted : anchor ≠ .relative) :
    ∀ (levels : Nat) {trail : List String},
      (∀ name ∈ trail, name ≠ ".." ∧ name.toList.getLast? ≠ some ':') →
        (up anchor)^[levels] trail = trail.drop levels
  | 0, _, _ => rfl
  | levels + 1, [], _ => by
      have stays : up anchor [] = [] := by simp [up, step, rooted]
      rw [Function.iterate_succ_apply, stays,
        iterate_up rooted levels (by simp), List.drop_nil, List.drop_nil]
  | levels + 1, name :: above, all => by
      obtain ⟨⟨plain, taken⟩, later⟩ := List.forall_mem_cons.mp all
      have back : up anchor (name :: above) = above := by
        simp [up, step, plain, taken]
      rw [Function.iterate_succ_apply, back, iterate_up rooted levels later,
        List.drop_succ_cons]

end Path

namespace FileSystem

variable {files : FileSystem}

/-- The current directory is one, and cleaning takes each of its names for the
name that it is. -/
structure HasPlainCurrent (files : FileSystem) : Prop where
  directory : ∃ children, files.at? files.current = some (.directory children)
  names :
    ∀ name ∈ files.current,
      IsEntryName name ∧ name.utf8ByteSize ≤ longestName ∧ '\x00' ∉ name.toList
  kept :
    ∀ name ∈ files.current, '\\' ∉ name.toList ∧ name.toList.getLast? ≠ some ':'

/-- A path as it is seen from the root. -/
def seen (files : FileSystem) (path : Path) : Path :=
  if path.anchor = .relative then files.here.join path.text else path

private theorem here_eq
    (plain : files.HasPlainCurrent) :
    files.here.anchor = .root ∧ files.here.trail = files.current := by
  have all : IsTrail .root files.current :=
    Path.isTrail_of_names fun name member =>
      ⟨(plain.names name member).1, (plain.kept name member).1⟩
  have text : (⟨.root, files.current, all⟩ : Path).text = files.currentText :=
    rfl
  rw [here, ← text, Path.ofText_text]
  exact ⟨rfl, rfl⟩

theorem seen_of_rooted
    {path : Path} (rooted : path.anchor ≠ .relative) :
    files.seen path = path :=
  if_neg rooted

theorem anchor_seen
    {path : Path}
    (plain : files.HasPlainCurrent)
    (relative : path.anchor = .relative) :
    (files.seen path).anchor = .root := by
  rw [seen, if_pos relative]
  exact (here_eq plain).1

theorem trail_seen_eq_retrace
    {path : Path}
    (plain : files.HasPlainCurrent)
    (relative : path.anchor = .relative) :
    (files.seen path).trail = Path.retrace .root files.current path.trail := by
  obtain ⟨anchor, trail⟩ := here_eq plain
  have folded :
      (Path.pieces path.text).foldl (Path.step .relative) [] = path.trail := by
    have back := Path.foldl_pieces_text path
    rwa [relative] at back
  have nothing : IsTrail .relative [] := trivial
  have joined :
      (Path.pieces path.text).foldl (Path.step .root)
          (Path.retrace .root files.current []) =
        Path.retrace .root files.current
          ((Path.pieces path.text).foldl (Path.step .relative) []) :=
    Path.foldl_step_retrace _ nothing fun _ => Path.unseparated_of_mem_pieces
  rw [folded] at joined
  rw [seen, if_pos relative, Path.trail_join_eq_foldl, anchor, trail]
  exact joined

/-- Seen from the root, a path has the names of the current directory that it
does not climb out of. -/
theorem trail_seen
    {path : Path}
    (plain : files.HasPlainCurrent)
    (relative : path.anchor = .relative) :
    (files.seen path).trail =
      path.trail.filter (· ≠ "..") ++
        files.current.drop (path.trail.count "..") := by
  have rooted : Anchor.root ≠ .relative := fun same => nomatch same
  have taken :
      ∀ name ∈ files.current, name ≠ ".." ∧ name.toList.getLast? ≠ some ':' :=
    fun name member =>
      ⟨(plain.names name member).1.2.2.1, (plain.kept name member).2⟩
  rw [trail_seen_eq_retrace plain relative, Path.retrace,
    Path.iterate_up rooted _ taken]

/-- Seen from the root, a joined path is joined to the path as seen from the
root. -/
theorem join_seen
    {path : Path}
    (plain : files.HasPlainCurrent)
    (relative : path.anchor = .relative)
    (name : String) :
    (files.seen path).join name = files.seen (path.join name) := by
  have relativeJoined : (path.join name).anchor = .relative := relative
  have isTrail : IsTrail .relative path.trail := relative ▸ path.isTrail
  have folded :
      (Path.pieces name).foldl (Path.step .root)
          (Path.retrace .root files.current path.trail) =
        Path.retrace .root files.current
          ((Path.pieces name).foldl (Path.step .relative) path.trail) :=
    Path.foldl_step_retrace _ isTrail fun _ => Path.unseparated_of_mem_pieces
  apply Path.eq_of_parts
  · rw [anchor_seen plain relativeJoined]
    exact anchor_seen plain relative
  · rw [trail_seen_eq_retrace plain relativeJoined, Path.trail_join_eq_foldl,
      Path.trail_join_eq_foldl, anchor_seen plain relative,
      trail_seen_eq_retrace plain relative, relative, folded]

/-! ## Walks -/

theorem exists_children_drop
    {place : Place}
    {children : List (String × Entry)}
    (inside : files.at? place = some (.directory children)) :
    ∀ levels, ∃ others, files.at? (place.drop levels) = some (.directory others)
  | 0 => ⟨children, inside⟩
  | levels + 1 => by
      cases place with
      | nil => exact ⟨_, files.at?_root⟩
      | cons name above =>
          obtain ⟨others, around⟩ := exists_children_of_at? inside
          exact exists_children_drop around levels

/-- Climbing from a directory leads to the directories above it. -/
theorem walk_climb
    (links : Nat) (rest : List String) :
    ∀ (levels : Nat) {place : Place} {children : List (String × Entry)},
      files.at? place = some (.directory children) →
      files.walk links place (List.replicate levels ".." ++ rest) =
        files.walk links (place.drop levels) rest
  | 0, _, _, _ => rfl
  | levels + 1, place, children, inside => by
      obtain ⟨others, around⟩ := exists_children_drop inside 1
      have up :
          files.walk links place
              (".." :: (List.replicate levels ".." ++ rest)) =
            files.walk links place.tail
              (List.replicate levels ".." ++ rest) := by
        rw [walk, inside]
        dsimp only
        rw [if_neg (by decide), if_pos rfl]
      rw [List.drop_one] at around
      rw [List.replicate_succ, List.cons_append, up,
        walk_climb links rest levels around, ← List.drop_one, List.drop_drop,
        Nat.add_comm 1]

/-- Both a relative path and the path as seen from the root come by the
directory that the first one climbs to. -/
theorem walk_seen
    {path : Path}
    (plain : files.HasPlainCurrent)
    (relative : path.anchor = .relative)
    (links : Nat) :
    files.walk links (start files.current path.text) (steps path.text) =
        files.walk links (files.current.drop (path.trail.count ".."))
          (path.trail.filter (· ≠ "..")).reverse ∧
      files.walk links (start files.current (files.seen path).text)
          (steps (files.seen path).text) =
        files.walk links (files.current.drop (path.trail.count ".."))
          (path.trail.filter (· ≠ "..")).reverse := by
  obtain ⟨children, inside⟩ := plain.directory
  constructor
  · have origin : files.origin path.anchor = files.current := if_pos relative
    have split := Path.reverse_eq_climbs_append_entered path.isTrail
    rw [walk_steps_text path (origin ▸ inside), origin, split,
      walk_climb _ _ _ inside]
  · have rooted : (files.seen path).anchor ≠ .relative := by
      rw [anchor_seen plain relative]
      exact fun same => nomatch same
    have origin : files.origin (files.seen path).anchor = [] := if_neg rooted
    have top :
        files.at? (files.origin (files.seen path).anchor) =
          some (.directory files.root) := by
      rw [origin]
      exact files.at?_root
    obtain ⟨others, around⟩ :=
      exists_children_drop inside (path.trail.count "..")
    have way :
        files.at?
            ((files.current.drop (path.trail.count "..")).reverse.reverse ++
              []) = some (.directory others) := by
      rw [List.reverse_reverse, List.append_nil]
      exact around
    have allowed :
        ∀ name ∈ (files.current.drop (path.trail.count "..")).reverse,
          IsEntryName name ∧ name.utf8ByteSize ≤ longestName := by
      intro name member
      obtain ⟨proper, short, _⟩ :=
        plain.names name (List.mem_of_mem_drop (List.mem_reverse.mp member))
      exact ⟨proper, short⟩
    rw [walk_steps_text (files.seen path) top, origin,
      trail_seen plain relative, List.reverse_append,
      walk_append_of_at? rfl links _ allowed way,
      List.reverse_reverse, List.append_nil]

/-! ## Looking up -/

private theorem nul_mem_text_seen_iff
    {path : Path}
    (plain : files.HasPlainCurrent)
    (relative : path.anchor = .relative) :
    '\x00' ∈ (files.seen path).text.toList ↔ '\x00' ∈ path.text.toList := by
  constructor
  · intro nul
    rcases Path.mem_text nul with slash | dot | ⟨name, among, inName⟩
    · cases slash
    · cases dot
    · rw [trail_seen plain relative] at among
      rcases List.mem_append.mp among with entered | above
      · exact Path.mem_text_of_mem_trail (List.mem_of_mem_filter entered) inName
      · exact absurd inName (plain.names name (List.mem_of_mem_drop above)).2.2
  · intro nul
    rcases Path.mem_text nul with slash | dot | ⟨name, among, inName⟩
    · cases slash
    · cases dot
    · have notDots : name ≠ ".." := by
        intro same
        rw [same] at inName
        exact absurd inName (by decide)
      have entered : name ∈ (files.seen path).trail := by
        rw [trail_seen plain relative]
        exact List.mem_append_left _
          (List.mem_filter.mpr ⟨among, by simpa using notDots⟩)
      exact Path.mem_text_of_mem_trail entered inName

/-- The texts of a path and of the path as seen from the root are both short
enough to be looked up, or both are not. -/
def EvenlyLong (files : FileSystem) (path : Path) : Prop :=
  path.text.utf8ByteSize < pathLimit ↔
    (files.seen path).text.utf8ByteSize < pathLimit

instance
    (files : FileSystem) (path : Path) :
    Decidable (files.EvenlyLong path) :=
  inferInstanceAs (Decidable (_ ↔ _))

theorem locate_seen
    {path : Path}
    (plain : files.HasPlainCurrent)
    (even : files.EvenlyLong path) :
    files.locate (files.seen path).text = files.locate path.text := by
  by_cases relative : path.anchor = .relative
  · obtain ⟨own, other⟩ := walk_seen plain relative linkLimit
    have nul :
        (files.seen path).text.toList.contains '\x00' =
          path.text.toList.contains '\x00' := by
      rw [Bool.eq_iff_iff, List.contains_iff_mem, List.contains_iff_mem]
      exact nul_mem_text_seen_iff plain relative
    have long :
        pathLimit ≤ (files.seen path).text.utf8ByteSize ↔
          pathLimit ≤ path.text.utf8ByteSize := by
      rw [← Nat.not_lt, ← Nat.not_lt]
      exact not_congr even.symm
    unfold locate
    rw [nul, if_neg (Path.text_ne_empty _), if_neg (Path.text_ne_empty _), own,
      other]
    simp only [long]
  · rw [seen_of_rooted relative]

/-! ## Absolute texts -/

private theorem HasPlainCurrent.proper
    (plain : files.HasPlainCurrent) : files.HasProperCurrent where
  names := fun name member => (plain.names name member).1
  notBackslash := by
    intro whole
    have member : "\\" ∈ files.current := whole ▸ List.mem_singleton_self _
    exact (plain.kept "\\" member).1 (by decide)

private theorem meant_eq_seen
    (files : FileSystem) (text : String) :
    files.meant text = files.seen (Path.ofText text) := by
  by_cases relative : (Path.ofText text).anchor = .relative
  · rw [meant_of_relative relative, seen, if_pos relative,
      Path.join_text_ofText _ relative]
  · rw [meant_of_rooted relative, seen_of_rooted relative]

/-- A text made absolute gives the path that it gives by itself, seen from the
root. Directly under the root this is so of a text without a backslash. -/
theorem absolute_eq_seen
    {text : String} (plain : files.HasPlainCurrent) (nonempty : text ≠ "")
    (relative : (Path.ofText text).anchor = .relative)
    (kept : files.current ≠ [] ∨ '\\' ∉ text.toList) :
    files.absolute text = .ok (files.seen (Path.ofText text)) := by
  rw [← meant_eq_seen]
  apply absolute_eq_meant plain.proper nonempty
  rcases kept with below | noBackslash
  · exact Or.inr ⟨relative, below⟩
  · exact Or.inl (startsPlain_of_backslash_not_mem noBackslash)

end FileSystem

end ConfigTree
