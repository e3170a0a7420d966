import ConfigTree.Path.Lemmas

/-!
# Parts of rooted paths

A rooted path that has a name has a directory, which is rooted too, and joining
the directory and the name gives the path again (`join_fileName`), except that
what lies directly under a share comes out under the root.
-/

namespace ConfigTree.Path

theorem isAbsolute_iff {path : Path} :
    path.isAbsolute = true ↔
      path.anchor ≠ .relative ∨ startsWithDrive path.text = true := by
  simp [isAbsolute]

/-- A path has one name more than its parent, and both start in the same place,
except that what is directly under a share has the root as its parent. -/
theorem parent?_cases
    {path directory : Path} (above : path.parent? = some directory) :
    ∃ name, path.trail = name :: directory.trail ∧
      (directory.anchor = path.anchor ∨
        path.anchor = .share ∧ directory = ofAnchor .root) := by
  obtain ⟨anchor, trail, all⟩ := path
  rcases trail with _ | ⟨name, _ | ⟨next, rest⟩⟩
  · cases above
  · cases anchor with
    | relative => cases above
    | root =>
        cases above
        exact ⟨name, rfl, Or.inl rfl⟩
    | share =>
        cases above
        exact ⟨name, rfl, Or.inr ⟨rfl, rfl⟩⟩
  · refine ⟨name, ?_⟩
    cases anchor <;>
      cases above <;>
        exact ⟨rfl, Or.inl rfl⟩

theorem rooted_of_parent
    {path directory : Path}
    (above : path.parent? = some directory)
    (rooted : path.anchor ≠ .relative) :
    directory.anchor ≠ .relative := by
  obtain ⟨_, _, same | ⟨_, isRoot⟩⟩ := parent?_cases above
  · rwa [same]
  · rw [isRoot]
    exact fun relative => nomatch relative

theorem exists_parent
    {path : Path} (rooted : path.anchor ≠ .relative) (named : path.trail ≠ []) :
    ∃ directory, path.parent? = some directory := by
  obtain ⟨anchor, trail, all⟩ := path
  rcases trail with _ | ⟨name, _ | ⟨next, rest⟩⟩
  · exact absurd rfl named
  · cases anchor with
    | relative => exact absurd rfl rooted
    | root => exact ⟨_, rfl⟩
    | share => exact ⟨_, rfl⟩
  · cases anchor with
    | relative => exact absurd rfl rooted
    | root => exact ⟨_, rfl⟩
    | share => exact ⟨_, rfl⟩

/-- The directory that a file lies in. A relative path of one name lies in the
current directory. -/
def folder (path : Path) : Path :=
  path.parent?.getD (ofAnchor .relative)

/-- A directory has the names above the last one. What is directly under a share
lies in the root. -/
theorem folder_parts
    {path : Path}
    {name : String}
    {above : List String}
    (trail : path.trail = name :: above) :
    path.folder.trail = above ∧
      (path.folder.anchor = path.anchor ∨
        path.anchor = .share ∧ path.folder.anchor = .root) := by
  obtain ⟨anchor, names, all⟩ := path
  cases trail
  cases anchor with
  | relative => cases above <;> exact ⟨rfl, Or.inl rfl⟩
  | root => cases above <;> exact ⟨rfl, Or.inl rfl⟩
  | share =>
      cases above with
      | nil => exact ⟨rfl, Or.inr ⟨rfl, rfl⟩⟩
      | cons next rest => exact ⟨rfl, Or.inl rfl⟩

theorem fileName?_of_trail
    {path : Path}
    {name : String}
    {above : List String}
    (trail : path.trail = name :: above) :
    path.fileName? = some name := by
  obtain ⟨anchor, names, all⟩ := path
  cases trail
  rfl

theorem exists_fileName
    {path : Path} (named : path.trail ≠ []) :
    ∃ name, path.fileName? = some name := by
  obtain ⟨name, above, trail⟩ := List.exists_cons_of_ne_nil named
  exact ⟨name, fileName?_of_trail trail⟩

theorem fileName?_eq
    {path other : Path}
    (named : path.trail ≠ [])
    (same : other.trail = path.trail) :
    other.fileName? = path.fileName? := by
  obtain ⟨name, above, trail⟩ := List.exists_cons_of_ne_nil named
  rw [fileName?_of_trail trail, fileName?_of_trail (same.trans trail)]

theorem text_of_rooted {path : Path} (rooted : path.anchor ≠ .relative) :
    path.text = path.anchor.text ++ "/".intercalate path.trail.reverse := by
  obtain ⟨anchor, trail, all⟩ := path
  cases anchor with
  | relative => exact absurd rfl rooted
  | root => rfl
  | share => rfl

theorem head?_text
    {path : Path} (rooted : path.anchor ≠ .relative) :
    path.text.toList.head? = some '/' := by
  rw [text_of_rooted rooted, String.toList_append]
  cases anchor : path.anchor with
  | relative => exact absurd anchor rooted
  | root =>
      have slash : Anchor.root.text.toList = ['/'] := by decide
      rw [slash, List.singleton_append, List.head?_cons]
  | share =>
      have slashes : Anchor.share.text.toList = ['/', '/'] := by decide
      rw [slashes, List.cons_append, List.head?_cons]

theorem trail_join_eq_foldl (path : Path) (segment : String) :
    (path.join segment).trail =
      (pieces segment).foldl (step path.anchor) path.trail :=
  rfl

theorem trail_join_name
    (directory : Path)
    {name : String}
    (all : IsTrail directory.anchor (name :: directory.trail)) :
    (directory.join name).trail = name :: directory.trail := by
  have alone : pieces name = [name] := pieces_of_unseparated all.1.2.2
  rw [trail_join_eq_foldl, alone, List.foldl_cons, List.foldl_nil,
    step_of_isTrail all]

/-- A path's last name, joined to the path's directory, gives the path again, or
the path is directly under a share. -/
theorem join_fileName_or_share
    {path directory : Path}
    {name : String}
    (above : path.parent? = some directory)
    (last : path.fileName? = some name) :
    directory.join name = path ∨
      path.anchor = .share ∧ path.trail = [name] ∧
        directory = ofAnchor .root := by
  obtain ⟨own, trail, starts⟩ := parent?_cases above
  have isOwn : name = own :=
    Option.some.inj (last.symm.trans (fileName?_of_trail trail))
  subst isOwn
  rcases starts with same | ⟨isShare, isRoot⟩
  · have all : IsTrail directory.anchor (name :: directory.trail) := by
      rw [same, ← trail]
      exact path.isTrail
    have trails := trail_join_name directory all
    exact Or.inl (eq_of_parts same (trails.trans trail.symm))
  · rw [isRoot] at trail
    exact Or.inr ⟨isShare, trail, isRoot⟩

/-- A path's last name, joined to the path's directory, gives a path with the
same names. It is the same path unless the path is directly under a share. -/
theorem join_fileName
    {path directory : Path}
    {name : String}
    (above : path.parent? = some directory)
    (last : path.fileName? = some name)
    (rooted : path.anchor ≠ .relative) :
    (directory.join name).trail = path.trail ∧
      (directory.join name = path ∨
        (path.text = "/" ++ (directory.join name).text ∧
            (directory.join name).parent? = some directory)) := by
  rcases join_fileName_or_share above last with same | ⟨isShare, trail, isRoot⟩
  · exact ⟨congrArg Path.trail same, Or.inl same⟩
  · subst isRoot
    have all : IsTrail .share [name] := by
      rw [← isShare, ← trail]
      exact path.isTrail
    have underRoot : IsTrail .root [name] := by
      refine ⟨all.1, fun climbs => ?_, trivial⟩
      cases (all.2.1 climbs).1
    have trails := trail_join_name (ofAnchor .root) underRoot
    have whole : (ofAnchor .root).join name = ⟨.root, [name], underRoot⟩ :=
      eq_of_parts rfl trails
    have rootedWhole : ((ofAnchor .root).join name).anchor ≠ .relative :=
      fun same => nomatch same
    refine ⟨trails.trans trail.symm, Or.inr ⟨?_, by rw [whole]; rfl⟩⟩
    rw [text_of_rooted rooted, text_of_rooted rootedWhole, trails, isShare,
      trail, ← String.append_assoc]
    rfl

end ConfigTree.Path
