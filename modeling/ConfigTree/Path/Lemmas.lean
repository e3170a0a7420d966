import ConfigTree.Path.Basic

/-!
# Reading a path's text back

Main statement: a path is what its text writes (`ofText_text`).
-/

namespace ConfigTree.Path

theorem pieces_of_unseparated
    {name : String} (unseparated : ∀ c ∈ name.toList, isSeparator c = false) :
    pieces name = [name] := by
  unfold pieces
  rw [List.splitOnP_eq_singleton unseparated]
  simp

private theorem pieces_append_slash {name : String} (rest : String)
    (unseparated : ∀ c ∈ name.toList, isSeparator c = false) :
    pieces (name ++ "/" ++ rest) = name :: pieces rest := by
  unfold pieces
  have layout :
      (name ++ "/" ++ rest).toList = name.toList ++ '/' :: rest.toList := by
    simp [String.toList_append]
  rw [layout,
    List.splitOnP_append_cons_of_forall_mem unseparated '/' (by decide)]
  simp

@[simp]
theorem pieces_slash_append
    (rest : String) :
    pieces ("/" ++ rest) = "" :: pieces rest := by
  have unseparated : ∀ c ∈ "".toList, isSeparator c = false := by simp
  have := pieces_append_slash rest unseparated
  rwa [String.empty_append] at this

theorem pieces_intercalate : {names : List String} → names ≠ [] →
    (∀ name ∈ names, ∀ c ∈ name.toList, isSeparator c = false) →
      pieces ("/".intercalate names) = names
  | [], nonempty, _ => absurd rfl nonempty
  | [name], _, unseparated => by
    rw [String.intercalate_singleton]
    exact pieces_of_unseparated (unseparated name (List.mem_cons_self ..))
  | name :: next :: rest, _, unseparated => by
    rw [String.intercalate_cons_cons,
      pieces_append_slash _ (unseparated name (List.mem_cons_self ..)),
      pieces_intercalate (by simp) fun other member =>
        unseparated other (List.mem_cons_of_mem _ member)]

theorem unseparated_of_mem_trail
    {anchor : Anchor} :
    {trail : List String} → IsTrail anchor trail →
    ∀ name ∈ trail, ∀ c ∈ name.toList, isSeparator c = false
  | [], _, _, member => by simp at member
  | _ :: _, all, name, member => by
    rcases List.mem_cons.mp member with rfl | member
    · exact all.1.2.2
    · exact unseparated_of_mem_trail all.2.2 name member

private theorem ne_empty_of_mem_trail
    {anchor : Anchor} :
    {trail : List String} → IsTrail anchor trail →
    ∀ name ∈ trail, name ≠ ""
  | [], _, _, member => by simp at member
  | _ :: _, all, name, member => by
    rcases List.mem_cons.mp member with rfl | member
    · exact all.1.1
    · exact ne_empty_of_mem_trail all.2.2 name member

/-- The next name of a trail is reached by one step. -/
theorem step_of_isTrail
    {anchor : Anchor}
    {name : String}
    {above : List String}
    (all : IsTrail anchor (name :: above)) :
    step anchor above name = name :: above := by
  obtain ⟨⟨nonempty, visible, _⟩, climbs, _⟩ := all
  unfold step
  rw [if_neg (not_or.mpr ⟨nonempty, visible⟩)]
  split
  · rename_i dots
    obtain ⟨relative, others⟩ := climbs dots
    cases above with
    | nil => simp [relative, dots]
    | cons last rest =>
      have again : last = ".." := others last (List.mem_cons_self ..)
      simp [again, dots]
  · rfl

private theorem foldl_step_reverse
    {anchor : Anchor} :
    {trail : List String} → IsTrail anchor trail →
    trail.reverse.foldl (step anchor) [] = trail
  | [], _ => rfl
  | name :: above, all => by
    rw [List.reverse_cons, List.foldl_append, foldl_step_reverse all.2.2,
      List.foldl_cons, List.foldl_nil, step_of_isTrail all]

@[simp]
theorem step_empty
    (anchor : Anchor) (trail : List String) :
    step anchor trail "" = trail := by
  simp [step]

private theorem takeWhile_names
    {names : List String} (nonempty : ∀ name ∈ names, name ≠ "")
    (unseparated : ∀ name ∈ names, ∀ c ∈ name.toList, isSeparator c = false) :
    ("/".intercalate names).toList.takeWhile isSeparator = [] := by
  cases names with
  | nil => simp
  | cons name rest =>
    have first : ∃ c others, name.toList = c :: others := by
      cases chars : name.toList with
      | nil =>
          exact absurd (String.toList_eq_nil_iff.mp chars)
            (nonempty name (List.mem_cons_self ..))
      | cons c others => exact ⟨c, others, rfl⟩
    obtain ⟨c, others, chars⟩ := first
    have plain : isSeparator c = false :=
      unseparated name (List.mem_cons_self ..) c (by simp [chars])
    cases rest with
    | nil => simp [String.intercalate_singleton, chars, plain]
    | cons next rest =>
        simp [String.intercalate_cons_cons, String.toList_append, chars, plain]

theorem eq_of_parts
    {path other : Path}
    (anchor : path.anchor = other.anchor)
    (trail : path.trail = other.trail) :
    path = other := by
  cases path
  cases other
  simp_all

@[simp]
theorem anchorOf_text (path : Path) : anchorOf path.text = path.anchor := by
  obtain ⟨anchor, trail, all⟩ := path
  cases trail with
  | nil => cases anchor <;> (simp only [text]; decide)
  | cons name above =>
    have names :
        ("/".intercalate (name :: above).reverse).toList.takeWhile isSeparator =
          [] :=
      takeWhile_names
        (fun other member =>
          ne_empty_of_mem_trail all other (List.mem_reverse.mp member))
        (fun other member =>
          unseparated_of_mem_trail all other (List.mem_reverse.mp member))
    have slash : isSeparator '/' = true := by decide
    cases anchor <;>
      simp only [anchorOf, text, Anchor.text, String.toList_append,
        String.reduceToList, List.nil_append, List.cons_append,
        List.takeWhile_cons_of_pos slash, names, List.length_cons,
        List.length_nil]

/-- The names of a path's text, behind empty ones for its anchor. -/
@[simp]
theorem foldl_pieces_text (path : Path) :
    (pieces path.text).foldl (step path.anchor) [] = path.trail := by
  obtain ⟨anchor, trail, all⟩ := path
  cases trail with
  | nil => cases anchor <;> (simp only [text]; decide)
  | cons name above =>
    have names :
        pieces ("/".intercalate (name :: above).reverse) =
          (name :: above).reverse :=
      pieces_intercalate (by simp) fun other member =>
        unseparated_of_mem_trail all other (List.mem_reverse.mp member)
    have back := foldl_step_reverse all
    cases anchor with
    | relative =>
      simp only [text, Anchor.text, String.empty_append]
      rw [names, back]
    | root =>
      simp only [text, Anchor.text]
      rw [pieces_slash_append, names, List.foldl_cons, step_empty, back]
    | share =>
      have twice : "//" = "/" ++ "/" := rfl
      simp only [text, Anchor.text]
      rw [twice, String.append_assoc, pieces_slash_append, pieces_slash_append,
        names, List.foldl_cons, List.foldl_cons, step_empty, step_empty, back]

@[simp]
theorem ofText_text (path : Path) : ofText path.text = path := by
  apply eq_of_parts
  · exact anchorOf_text path
  · have anchor := anchorOf_text path
    unfold ofText join ofAnchor
    simp only [anchor]
    exact foldl_pieces_text path

end ConfigTree.Path
