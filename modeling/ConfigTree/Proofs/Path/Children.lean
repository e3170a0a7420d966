import ConfigTree.Proofs.Path.Normal
import ConfigTree.Proofs.Path.Parts

/-!
# Going into a child and back

A name joined to a directory is the last name of the path, and the path's parent
is the directory. Main statement: going into a child and back again leads to
where it started, in whichever way one goes back (`going_into_and_back`). Two
things stand against it: a name that ends with a colon is not taken back by two
dots, and what lies directly under a share has the root as its parent.
-/

namespace ConfigTree.Path

/-! ## Names of one segment -/

section Name

variable {directory : Path} {name : String}

private theorem isTrail_name
    (directory : Path)
    (proper : IsEntryName name)
    (plain : '\\' ∉ name.toList) :
    IsTrail directory.anchor (name :: directory.trail) := by
  have all : ∀ other ∈ [name], IsEntryName other ∧ '\\' ∉ other.toList :=
    List.forall_mem_singleton.mpr ⟨proper, plain⟩
  exact isTrail_append directory.isTrail all

private theorem join_name
    (proper : IsEntryName name) (plain : '\\' ∉ name.toList) :
    directory.join name =
      ⟨directory.anchor, name :: directory.trail,
        isTrail_name directory proper plain⟩ := by
  have all := isTrail_name directory proper plain
  exact eq_of_parts rfl (trail_join_name directory all)

private theorem fileName?_join_name
    (proper : IsEntryName name) (plain : '\\' ∉ name.toList) :
    (directory.join name).fileName? = some name := by
  have trail := trail_join_name directory (isTrail_name directory proper plain)
  exact fileName?_of_trail trail

/-- What is joined to a directory by a name lies right in it; only what is under
a share lies under the root. -/
theorem parent?_join_name
    (rooted : directory.anchor ≠ .relative)
    (notShare : directory ≠ ofAnchor .share)
    (proper : IsEntryName name)
    (plain : '\\' ∉ name.toList) :
    (directory.join name).parent? = some directory := by
  rw [join_name proper plain]
  obtain ⟨anchor, trail, isTrail⟩ := directory
  cases trail with
  | nil =>
      cases anchor with
      | relative => exact absurd rfl rooted
      | root => rfl
      | share => exact absurd rfl notShare
  | cons last above =>
      cases anchor with
      | relative => exact absurd rfl rooted
      | root => rfl
      | share => rfl

theorem anchor_ofText_name
    (proper : IsEntryName name) (plain : '\\' ∉ name.toList) :
    (ofText name).anchor = .relative := by
  apply (anchorOf_eq_relative_iff name).mpr
  intro c first
  exact (isTrail_name (ofAnchor .relative) proper plain).1.2.2 c
    (List.mem_of_head? first)

theorem text_ofText_name
    (proper : IsEntryName name) (plain : '\\' ∉ name.toList) :
    (ofText name).text = name := by
  have start : anchorOf name = .relative := anchor_ofText_name proper plain
  rw [ofText, start, join_name proper plain]
  exact String.empty_append.trans String.intercalate_singleton

/-! ## Two dots -/

private theorem join_dots
    (path : Path) :
    (path.join "..").trail = step path.anchor path.trail ".." := by
  have alone : pieces ".." = [".."] := by decide
  rw [trail_join_eq_foldl, alone, List.foldl_cons, List.foldl_nil]

/-- Two dots take a name back. -/
theorem join_name_join_dots
    (proper : IsEntryName name)
    (plain : '\\' ∉ name.toList)
    (taken : name.toList.getLast? ≠ some ':') :
    (directory.join name).join ".." = directory := by
  have named := trail_join_name directory (isTrail_name directory proper plain)
  have anchors : ((directory.join name).join "..").anchor = directory.anchor :=
    rfl
  apply eq_of_parts anchors
  rw [join_dots, named, step, if_neg (by decide), if_pos rfl, if_neg taken,
    if_neg proper.2.2.1]

/-- Two dots leave a name that ends with a colon, as the name of a drive
does. -/
theorem join_drive_join_dots
    (proper : IsEntryName name)
    (plain : '\\' ∉ name.toList)
    (stays : name.toList.getLast? = some ':') :
    (directory.join name).join ".." = directory.join name := by
  have named := trail_join_name directory (isTrail_name directory proper plain)
  have anchors :
      ((directory.join name).join "..").anchor = (directory.join name).anchor :=
    rfl
  apply eq_of_parts anchors
  rw [join_dots, named, step, if_neg (by decide), if_pos rfl, if_pos stays]

end Name

/-! ## There and back -/

/-- From a path that starts with a slash one can go into any child and back: the
child is called by its name, its parent is the path, and two dots lead back to
the path; only the letter of a drive is never taken back. And a path is the
child of its parent that has its name. Nothing is said about the parent of what
lies directly under a share. -/
theorem going_into_and_back
    {path : Path} (rooted : path.text.toList.head? = some '/') :
    (∀ name, IsEntryName name → '\\' ∉ name.toList →
      (path.join name).fileName? = some name ∧
        (path.text ≠ "//" → (path.join name).parent? = some path) ∧
        (name.toList.getLast? ≠ some ':' → (path.join name).join ".." = path) ∧
        ∀ letter,
          name.toList = [letter, ':'] →
            (path.join name).join ".." = path.join name) ∧
      ∀ directory name,
        path.parent? = some directory → path.fileName? = some name →
          path.text ≠ "//" ++ name → directory.join name = path := by
  have anchored := (head?_text_iff path).mp rooted
  constructor
  · intro name proper plain
    refine ⟨fileName?_join_name proper plain, fun notShare => ?_,
      join_name_join_dots proper plain, fun letter drive => ?_⟩
    · have other : path ≠ ofAnchor .share :=
        fun same => notShare (congrArg text same)
      exact parent?_join_name anchored other proper plain
    · have stays : name.toList.getLast? = some ':' := by
        rw [drive, List.getLast?_cons_cons, List.getLast?_singleton]
      exact join_drive_join_dots proper plain stays
  · intro directory name above last notUnder
    rcases join_fileName_or_share above last with same | ⟨isShare, alone, _⟩
    · exact same
    · have under : path.text = "//" ++ name := by
        rw [text_of_rooted anchored, isShare, alone, List.reverse_singleton,
          String.intercalate_singleton]
        rfl
      exact absurd under notUnder

theorem going_into_and_back_srv :
    (ofText "/srv").text.toList.head? = some '/' ∧
      (IsEntryName "conf" ∧
        ((ofText "/srv").join "conf").fileName? = some "conf" ∧
        ((ofText "/srv").join "conf").parent? = some (ofText "/srv") ∧
        ((ofText "/srv").join "conf").join ".." = ofText "/srv") ∧
      (IsEntryName "C:" ∧
        ((ofText "/srv").join "C:").join ".." = (ofText "/srv").join "C:") ∧
      ((ofText "/srv").parent? = some (ofText "/") ∧
        (ofText "/srv").fileName? = some "srv" ∧
        (ofText "/").join "srv" = ofText "/srv") := by
  have rooted : (ofText "/srv").text.toList.head? = some '/' := by decide
  have above : (ofText "/srv").parent? = some (ofText "/") := by decide
  have last : (ofText "/srv").fileName? = some "srv" := by decide
  obtain ⟨children, again⟩ := going_into_and_back rooted
  obtain ⟨called, within, back, _⟩ := children "conf" (by decide) (by decide)
  obtain ⟨_, _, _, drive⟩ := children "C:" (by decide) (by decide)
  exact ⟨rooted, ⟨by decide, called, within (by decide), back (by decide)⟩,
    ⟨by decide, drive 'C' (by decide)⟩, above, last,
    again _ _ above last (by decide)⟩

/-- Two dots do not lead back from the letter of a drive. -/
theorem going_into_drive_and_back :
    (ofText "/").text.toList.head? = some '/' ∧ IsEntryName "C:" ∧
      '\\' ∉ "C:".toList ∧ ((ofText "/").join "C:").join ".." ≠ ofText "/" := by
  decide

end ConfigTree.Path
