import ConfigTree.Path.Lemmas
import ConfigTree.Proofs.FileSystem.Names

/-!
# What the search finds lies below

Main statements: what is found for a name has the text of the modules directory
with further names behind it (`exists_way_of_searchModules`), and the path of
such a text has these names below those of the modules directory if no backslash
stands in them (`trail_ofText_joinNames`).
-/

namespace ConfigTree

namespace FileSystem

/-! ## The search -/

/-- A path that the search goes through is a child's path or lies below a child
that is a directory, itself or by a link. -/
theorem mem_directoriesBelow
    {files : FileSystem} {inside : List Place} {text path : String}
    {place : Place} {children : List (String × Entry)}
    (member : path ∈ files.directoriesBelow inside text place children) :
    ∃ name entry, (name, entry) ∈ children ∧
      ((∃ inner, entry = .directory inner ∧
          (path = joinText text name ∨
            path ∈ files.directoriesBelow ((name :: place) :: inside)
              (joinText text name) (name :: place) inner)) ∨
        (∃ target inner, files.at? target = some (.directory inner) ∧
          target ∉ inside ∧
          (path = joinText text name ∨
            path ∈ files.directoriesBelow (target :: inside)
              (joinText text name) target inner))) := by
  rw [directoriesBelow_eq] at member
  obtain ⟨⟨name, entry⟩, among, found⟩ := List.mem_flatMap.mp member
  refine ⟨name, entry, List.mem_mergeSort.mp among, ?_⟩
  unfold directoriesFrom at found
  cases entry with
  | directory inner =>
      refine Or.inl ⟨inner, rfl, ?_⟩
      rcases List.mem_cons.mp found with same | deeper
      · exact Or.inl same
      · split at deeper
        · exact Or.inr deeper
        · exact absurd deeper List.not_mem_nil
  | link target =>
      dsimp only at found
      split at found
      · exact absurd found List.not_mem_nil
      · rename_i reached _
        split at found
        · rename_i inner present
          split at found
          · exact absurd found List.not_mem_nil
          · rename_i outside
            exact
              Or.inr ⟨reached, inner, present, outside, List.mem_cons.mp found⟩
        · exact absurd found List.not_mem_nil
  | file content => exact absurd found List.not_mem_nil
  | device => exact absurd found List.not_mem_nil

private theorem mem_placesFromChildren
    {place found : Place} {name : String} {entry : Entry} :
    ∀ {children : List (String × Entry)},
      (name, entry) ∈ children →
      found ∈ entry.placesFrom (name :: place) →
        found ∈ Entry.placesFromChildren place children
  | [], member, _ => absurd member List.not_mem_nil
  | (other, first) :: rest, member, inside => by
      unfold Entry.placesFromChildren
      rcases List.mem_cons.mp member with same | later
      · obtain ⟨rfl, rfl⟩ := Prod.mk.inj same
        exact List.mem_append_left _ inside
      · exact List.mem_append_right _ (mem_placesFromChildren later inside)

private theorem exists_way_of_mem_directoriesBelow
    {files : FileSystem} (named : files.HasEntryNames)
    {inside : List Place} {text path : String}
    {place : Place} {children : List (String × Entry)}
    (present :
      ∀ found ∈ Entry.placesFromChildren place children, found ∈ files.places)
    (member : path ∈ files.directoriesBelow inside text place children) :
    ∃ way, way ≠ [] ∧ (∀ name ∈ way, IsEntryName name) ∧
      path = joinNames text way := by
  induction inside, text, place,
      children using directoriesBelow.induct files generalizing path with
  | case1 inside text place children directoryStep linkStep =>
      obtain ⟨name, entry, among, found⟩ := mem_directoriesBelow member
      have here : name :: place ∈ files.places :=
        present _ (mem_placesFromChildren among (Entry.mem_placesFrom _ entry))
      have proper : IsEntryName name :=
        named _ here name (List.mem_cons_self ..)
      have extended :
          (path = joinText text name ∨ ∃ way, way ≠ [] ∧
            (∀ other ∈ way, IsEntryName other) ∧
              path = joinNames (joinText text name) way) →
          ∃ way, way ≠ [] ∧ (∀ other ∈ way, IsEntryName other) ∧
            path = joinNames text way := by
        intro either
        rcases either with rfl | ⟨way, _, all, rfl⟩
        · exact ⟨[name], by simp, by simpa using proper, rfl⟩
        · exact ⟨name :: way, by simp, by simpa using ⟨proper, all⟩, rfl⟩
      apply extended
      rcases found with
        ⟨inner, rfl, same | deeper⟩ |
          ⟨target, inner, directory, outside, same | deeper⟩
      · exact Or.inl same
      · refine Or.inr
          (directoryStep name inner (List.mem_mergeSort.mpr among) ?_ deeper)
        intro found below
        apply present
        apply mem_placesFromChildren among
        exact List.mem_cons_of_mem _ below
      · exact Or.inl same
      · refine Or.inr (linkStep name target inner directory outside ?_ deeper)
        intro found below
        apply mem_places_of_mem_placesFrom directory
        exact List.mem_cons_of_mem _ below

/-- What the search finds for a name has the modules directory's text with
further names behind it. -/
theorem exists_way_of_searchModules
    {files : FileSystem} (named : files.HasEntryNames)
    {modules root : String} {segments : List String}
    (nonempty : segments ≠ []) (all : ∀ segment ∈ segments, IsEntryName segment)
    (found :
      files.searchModules modules ("/".intercalate segments) = some root) :
    ∃ way, way ≠ [] ∧ (∀ name ∈ way, IsEntryName name) ∧
      root = joinNames modules way := by
  unfold searchModules at found
  simp only [joinText_intercalate modules nonempty all] at found
  split at found
  · obtain rfl := Option.some.inj found
    exact ⟨segments, nonempty, all, rfl⟩
  · have member := List.mem_of_find?_eq_some found
    unfold directoriesUnder at member
    split at member
    · exact absurd member List.not_mem_nil
    · rename_i place _
      split at member
      · rename_i children present
        refine exists_way_of_mem_directoriesBelow named ?_ member
        intro found below
        apply mem_places_of_mem_placesFrom present
        exact List.mem_cons_of_mem _ below
      · exact absurd member List.not_mem_nil

end FileSystem

/-! ## Paths of longer texts -/

namespace Path

theorem anchorOf_eq_relative_iff (text : String) :
    anchorOf text = .relative ↔
      ∀ c, text.toList.head? = some c → isSeparator c = false := by
  unfold anchorOf
  cases chars : text.toList with
  | nil => simp
  | cons first rest =>
      by_cases separator : isSeparator first = true
      · rw [List.takeWhile_cons_of_pos separator, List.length_cons]
        constructor
        · intro relative
          split at relative
          · rename_i none
            omega
          · cases relative
          · cases relative
        · intro plain
          rw [plain first rfl] at separator
          cases separator
      · rw [List.takeWhile_cons_of_neg separator]
        simpa using separator

theorem rooted_of_head? {text : String} (slash : text.toList.head? = some '/') :
    (ofText text).anchor ≠ .relative := by
  intro relative
  have plain : isSeparator '/' = false :=
    (anchorOf_eq_relative_iff text).mp relative '/' slash
  have separator : isSeparator '/' = true := by decide
  exact Bool.false_ne_true (plain.symm.trans separator)

/-- Of where a path starts a step only needs to know whether that is a place of
its own. -/
theorem step_eq_of_relative_iff
    {anchor other : Anchor} (same : anchor = .relative ↔ other = .relative)
    (trail : List String) (piece : String) :
    step anchor trail piece = step other trail piece := by
  unfold step
  simp only [same]

theorem foldl_step_eq_of_relative_iff
    {anchor other : Anchor} (same : anchor = .relative ↔ other = .relative) :
    ∀ (steps trail : List String),
      steps.foldl (step anchor) trail = steps.foldl (step other) trail
  | [], _ => rfl
  | piece :: rest, trail => by
      rw [List.foldl_cons, List.foldl_cons, step_eq_of_relative_iff same]
      exact foldl_step_eq_of_relative_iff same rest _

@[simp]
theorem pieces_slash (before after : String) :
    pieces (before ++ "/" ++ after) = pieces before ++ pieces after := by
  unfold pieces
  have layout :
      (before ++ "/" ++ after).toList =
        before.toList ++ '/' :: after.toList := by
    simp [String.toList_append]
  rw [layout, List.splitOnP_append_cons _ _ (by decide), List.map_append]

theorem step_name
    (anchor : Anchor) (trail : List String) {name : String}
    (proper : IsEntryName name) :
    step anchor trail name = name :: trail := by
  obtain ⟨nonempty, notDot, notDots, _⟩ := proper
  simp [step, nonempty, notDot, notDots]

theorem pieces_name
    {name : String} (proper : IsEntryName name) (plain : '\\' ∉ name.toList) :
    pieces name = [name] := by
  apply pieces_of_unseparated
  intro c member
  simp only [isSeparator, Bool.or_eq_false_iff, decide_eq_false_iff_not]
  exact ⟨fun slash => proper.2.2.2 (slash ▸ member),
    fun backslash => plain (backslash ▸ member)⟩

/-- Putting a name behind a text neither makes its path relative nor a path of
its own. -/
theorem anchorOf_joinText
    (text : String)
    {name : String}
    (proper : IsEntryName name)
    (plain : '\\' ∉ name.toList) :
    anchorOf (joinText text name) = .relative ↔ anchorOf text = .relative := by
  rw [anchorOf_eq_relative_iff, anchorOf_eq_relative_iff]
  by_cases none : text = ""
  · subst none
    have same : joinText "" name = name := by
      simp [joinText, proper.head?_ne]
    rw [same]
    constructor
    · intro _ c first
      cases first
    · intro _ c first
      have member := List.mem_of_head? first
      simp only [isSeparator, Bool.or_eq_false_iff, decide_eq_false_iff_not]
      exact ⟨fun slash => proper.2.2.2 (slash ▸ member),
        fun backslash => plain (backslash ▸ member)⟩
  · have nonempty : text.toList ≠ [] :=
      fun empty => none (String.toList_eq_nil_iff.mp empty)
    have sameHead : (joinText text name).toList.head? = text.toList.head? := by
      unfold joinText
      rw [if_neg proper.head?_ne]
      split
      · rw [String.toList_append, List.head?_append_of_ne_nil _ nonempty]
      · rw [String.append_assoc, String.toList_append,
          List.head?_append_of_ne_nil _ nonempty]
    rw [sameHead]

/-- An empty piece at a text's end is dropped when a part is put behind it. -/
theorem pieces_joinText
    (text : String) {part : String} (relative : part.toList.head? ≠ some '/') :
    pieces (joinText text part) = pieces text ++ pieces part ∨
      ∃ before,
        pieces text = before ++ [""] ∧
        pieces (joinText text part) = before ++ pieces part := by
  rcases joinText_cases text relative with
    ⟨joined, rfl | ⟨before, rfl⟩⟩ | ⟨joined, _⟩
  · refine Or.inr ⟨[], by decide, ?_⟩
    rw [joined, String.empty_append, List.nil_append]
  · refine Or.inr ⟨pieces before, ?_, ?_⟩
    · have ending := pieces_slash before ""
      rw [String.append_empty] at ending
      rw [ending]
      rfl
    · rw [joined, pieces_slash]
  · left
    rw [joined, pieces_slash]

/-- The pieces of a text with a part behind it lead to where those of the part
lead from the text. -/
theorem foldl_pieces_joinText
    (anchor : Anchor)
    (text : String)
    {part : String}
    (relative : part.toList.head? ≠ some '/') :
    (pieces (joinText text part)).foldl (step anchor) [] =
      (pieces part).foldl (step anchor)
        ((pieces text).foldl (step anchor) []) := by
  rcases pieces_joinText text relative with joined | ⟨before, ending, joined⟩
  · rw [joined, List.foldl_append]
  · rw [joined, ending, List.foldl_append, List.foldl_append, List.foldl_cons,
      List.foldl_nil, step_empty]

theorem trail_ofText (text : String) :
    (ofText text).trail = (pieces text).foldl (step (anchorOf text)) [] :=
  rfl

theorem trail_ofText_joinNames
    (text : String) :
    ∀ {way : List String},
      (∀ name ∈ way, IsEntryName name ∧ '\\' ∉ name.toList) →
        (ofText (joinNames text way)).trail =
          way.reverse ++ (ofText text).trail := by
  intro way
  induction way generalizing text with
  | nil =>
      intro _
      rfl
  | cons name rest inductionHypothesis =>
      intro all
      obtain ⟨proper, plain⟩ := all name (List.mem_cons_self ..)
      have later := inductionHypothesis (joinText text name)
        fun other member => all other (List.mem_cons_of_mem _ member)
      have here :
          (ofText (joinText text name)).trail =
            name :: (ofText text).trail := by
        rw [trail_ofText, trail_ofText,
          foldl_pieces_joinText _ _ proper.head?_ne, pieces_name proper plain,
          List.foldl_cons, List.foldl_nil, step_name _ _ proper,
          foldl_step_eq_of_relative_iff (anchorOf_joinText text proper plain)]
      have whole :
          joinNames text (name :: rest) = joinNames (joinText text name) rest :=
        rfl
      rw [whole, later, here, List.reverse_cons, List.append_assoc]
      rfl

end Path

end ConfigTree
