import ConfigTree.Proofs.FileSystem.Cleaning

/-!
# Walks in stages

A walk along a text goes through the place that the text's beginning leads to,
with the links that are left from there (`exists_walk_append`). So a text with a
part behind it leads on from where the text leads (`exists_walk_of_joinText`),
and a text with a directory's name behind it into that directory, if anywhere
(`eq_of_locate_joinText`).
-/

namespace ConfigTree.FileSystem

variable {files : FileSystem}

/-! ## Walks -/

/-- A step follows a link, or else there is one step less to take. -/
theorem advance_decreases
    {links left : Nat}
    {place next : Place}
    {step : String}
    {before : List String}
    (advanced : files.advance links place step = .ok (left, next, before))
    (rest : List String) :
    Prod.Lex (· < ·) (· < ·) (left, (before ++ rest).length)
      (links, (step :: rest).length) := by
  unfold advance at advanced
  repeat' split at advanced
  all_goals cases advanced
  all_goals
    first
    | exact .left _ _ (Nat.lt_succ_self _)
    | exact .right _ (Nat.lt_succ_self _)

/-- What a walk comes to along a way, with the links that are left then, does
not depend on what follows. -/
theorem exists_walk_append (files : FileSystem) :
    ∀ (links : Nat) (place : Place) (way : List String),
      ∃ reached : Except Obstacle (Nat × Place),
        ∀ rest,
          files.walk links place (way ++ rest) =
            reached.bind fun (left, middle) => files.walk left middle rest
  | links, place, [] => ⟨.ok (links, place), fun _ => rfl⟩
  | links, place, step :: way => by
      simp only [List.cons_append, walk_advance]
      cases advanced : files.advance links place step with
      | error obstacle => exact ⟨.error obstacle, fun _ => rfl⟩
      | ok stage =>
          obtain ⟨left, next, before⟩ := stage
          obtain ⟨reached, goesOn⟩ :=
            exists_walk_append files left next (before ++ way)
          exact ⟨reached,
            fun rest => by rw [← goesOn rest, List.append_assoc]; rfl⟩
termination_by links _ way => (links, way.length)
decreasing_by exact advance_decreases advanced way

theorem exists_left_of_walk_append
    {links : Nat} {place target : Place} {way rest : List String}
    (walked : files.walk links place (way ++ rest) = .ok target) :
    ∃ left middle, files.walk left middle rest = .ok target ∧
      ∀ other,
        files.walk links place (way ++ other) =
          files.walk left middle other := by
  obtain ⟨reached, goesOn⟩ := files.exists_walk_append links place way
  rw [goesOn] at walked
  cases reached with
  | error obstacle => cases walked
  | ok stage => exact ⟨stage.1, stage.2, walked, goesOn⟩

/-- Steps that do not climb lead where the names lead that cleaning enters for
them. -/
theorem exists_entered_of_walk :
    ∀ {way : List String} {links : Nat} {place target : Place},
      ".." ∉ way → files.walk links place way = .ok target →
        ∃ entered : List String,
          (∀ anchor trail,
            way.foldl (Path.step anchor) trail = entered.reverse ++ trail) ∧
          files.walk links place entered = .ok target
  | [], _, _, _, _, walked => ⟨[], fun _ _ => rfl, walked⟩
  | step :: rest, links, place, target, noClimb, walked => by
      obtain ⟨notDots, laterNoClimb⟩ := not_or.mp (List.mem_cons.not.mp noClimb)
      by_cases still : step = "" ∨ step = "."
      · obtain ⟨children, inside⟩ := exists_children_of_walk walked
        rw [walk_still inside still] at walked
        obtain ⟨entered, trails, leads⟩ :=
          exists_entered_of_walk laterNoClimb walked
        refine ⟨entered, fun anchor trail => ?_, leads⟩
        have stays : Path.step anchor trail step = trail := if_pos still
        rw [List.foldl_cons, stays, trails]
      · have split : files.walk links place ([step] ++ rest) = .ok target :=
          walked
        obtain ⟨left, middle, onward, others⟩ :=
          exists_left_of_walk_append split
        obtain ⟨entered, trails, leads⟩ :=
          exists_entered_of_walk laterNoClimb onward
        refine ⟨step :: entered, fun anchor trail => ?_,
          (others entered).trans leads⟩
        have enters : Path.step anchor trail step = step :: trail := by
          unfold Path.step
          rw [if_neg still, if_neg fun dots => notDots dots.symm]
        rw [List.foldl_cons, enters, trails, List.reverse_cons,
          List.append_assoc]
        rfl

/-! ## Other numbers of links -/

private theorem advance_links
    {links left : Nat}
    {place next : Place}
    {step : String}
    {before : List String}
    (advanced : files.advance links place step = .ok (left, next, before))
    (other : Nat) :
    (∃ otherLeft,
      files.advance other place step = .ok (otherLeft, next, before)) ∨
      files.advance other place step = .error .tooManyLinks := by
  unfold advance at advanced ⊢
  repeat' split at advanced
  all_goals cases advanced
  case h_1.isTrue still => exact Or.inl ⟨other, by rw [if_pos still]⟩
  case h_1.isFalse.isTrue moves climbs =>
    exact Or.inl ⟨other, by rw [if_neg moves, if_pos climbs]⟩
  case h_2.refl moves enters short _ _ _ _ =>
    -- Only a link takes one of those that are left.
    simp only [if_neg moves, if_neg enters, if_neg short]
    cases other with
    | zero => exact Or.inr rfl
    | succ otherLeft => exact Or.inl ⟨otherLeft, rfl⟩
  case h_3.refl moves enters short _ _ _ _ =>
    exact Or.inl ⟨other, by rw [if_neg moves, if_neg enters, if_neg short]⟩

/-- With another number of links a walk comes to the same place, or there are
too many. -/
theorem walk_links :
    ∀ (links : Nat) {place target : Place} (way : List String),
      files.walk links place way = .ok target →
        ∀ other,
          files.walk other place way = .ok target ∨
          files.walk other place way = .error .tooManyLinks
  | _, _, _, [], walked, other => by
      exact .inl (by simpa using walked)
  | links, place, target, step :: rest, walked, other => by
      rw [walk_advance] at walked ⊢
      cases advanced : files.advance links place step with
      | error obstacle =>
          rw [advanced] at walked
          cases walked
      | ok stage =>
          obtain ⟨left, next, before⟩ := stage
          rw [advanced] at walked
          rcases advance_links advanced other with ⟨otherLeft, same⟩ | tooMany
          · rw [same]
            exact walk_links left (before ++ rest) walked otherLeft
          · rw [tooMany]
            exact Or.inr rfl
termination_by links _ _ way => (links, way.length)
decreasing_by exact advance_decreases advanced rest

private theorem walk_into_directory
    {links : Nat}
    {place target : Place}
    {name : String}
    {inner : List (String × Entry)}
    (proper : IsEntryName name)
    (present : files.at? (name :: place) = some (.directory inner))
    (walked : files.walk links place [name] = .ok target) :
    target = name :: place := by
  obtain ⟨nonempty, notDot, notDots, _⟩ := proper
  obtain ⟨children, inside⟩ := exists_children_of_walk walked
  rw [walk, inside] at walked
  simp only [if_neg (not_or.mpr ⟨nonempty, notDot⟩), if_neg notDots, present,
    walk_nil] at walked
  split at walked
  next => cases walked
  next => exact (Except.ok.inj walked).symm

/-! ## Texts with a part behind them -/

theorem steps_ne_nil (text : String) : steps text ≠ [] := by
  unfold steps
  rw [List.splitOn_eq_splitOnP]
  simp [List.splitOnP_ne_nil]

theorem steps_of_isEntryName
    {name : String} (proper : IsEntryName name) :
    steps name = [name] := by
  have alone :=
    steps_intercalate (List.cons_ne_nil name []) (by simpa using proper)
  rwa [String.intercalate_singleton] at alone

@[simp]
theorem steps_slash
    (before after : String) :
    steps (before ++ "/" ++ after) = steps before ++ steps after := by
  unfold steps
  have layout :
      (before ++ "/" ++ after).toList =
        before.toList ++ '/' :: after.toList := by
    simp [String.toList_append]
  rw [layout, List.splitOn_eq_splitOnP, List.splitOn_eq_splitOnP,
    List.splitOn_eq_splitOnP, List.splitOnP_append_cons _ _ (by simp),
    List.map_append]

/-- An empty step at a text's end is dropped when a part is put behind it. -/
theorem steps_joinText
    (text : String) {part : String} (relative : part.toList.head? ≠ some '/') :
    (∃ before,
      steps text = before ++ [""] ∧
      steps (joinText text part) = before ++ steps part) ∨
      (text ≠ "" ∧ steps (joinText text part) = steps text ++ steps part) := by
  rcases joinText_cases text relative with
    ⟨joined, rfl | ⟨before, rfl⟩⟩ | ⟨joined, nonempty, _⟩
  · refine Or.inl ⟨[], by decide, ?_⟩
    rw [joined, String.empty_append]
    rfl
  · refine Or.inl ⟨steps before, ?_, ?_⟩
    · have ending := steps_slash before ""
      rw [String.append_empty] at ending
      rw [ending]
      rfl
    · rw [joined, steps_slash]
  · refine Or.inr ⟨nonempty, ?_⟩
    rw [joined, steps_slash]

/-- A text with a part behind it leads on from where the text leads. -/
theorem exists_walk_of_joinText
    {text part : String}
    {target : Place}
    (nonempty : text ≠ "")
    (relative : part.toList.head? ≠ some '/')
    (located : files.locate (joinText text part) = .ok target) :
    ∃ place left,
      files.locate text = .ok place ∧
      files.walk left place (steps part) = .ok target := by
  obtain ⟨gap, layout⟩ : ∃ gap, joinText text part = text ++ gap := by
    rcases joinText_cases text relative with ⟨joined, _⟩ | ⟨joined, _⟩
    · exact ⟨part, joined⟩
    · exact ⟨"/" ++ part, by rw [joined, String.append_assoc]⟩
  obtain ⟨plain, _, short, walked⟩ := locate_eq_ok_iff.mp located
  have plainText : '\x00' ∉ text.toList := by
    intro nul
    rw [layout, String.toList_append] at plain
    exact plain (List.mem_append_left _ nul)
  have shortText : text.utf8ByteSize < pathLimit := by
    rw [layout, String.utf8ByteSize_append] at short
    omega
  have sameStart :
      start files.current (joinText text part) = start files.current text := by
    have someChars : text.toList ≠ [] :=
      fun none => nonempty (String.toList_eq_nil_iff.mp none)
    rw [start, start, layout, String.toList_append,
      List.head?_append_of_ne_nil _ someChars]
  rw [Leads, sameStart] at walked
  obtain ⟨first, behind, pieces⟩ :=
    List.exists_cons_of_ne_nil (steps_ne_nil part)
  rcases steps_joinText text relative with ⟨before, whole, joined⟩ | ⟨_, joined⟩
  · rw [joined] at walked
    obtain ⟨left, middle, onward, others⟩ := exists_left_of_walk_append walked
    rw [pieces] at onward
    obtain ⟨children, inside⟩ := exists_children_of_walk onward
    refine ⟨middle, left,
      locate_eq_ok_iff.mpr ⟨plainText, nonempty, shortText, ?_⟩,
      pieces ▸ onward⟩
    rw [Leads, whole, others, walk_still inside (Or.inl rfl), walk_nil]
  · rw [joined] at walked
    obtain ⟨left, middle, onward, others⟩ := exists_left_of_walk_append walked
    refine ⟨middle, left,
      locate_eq_ok_iff.mpr ⟨plainText, nonempty, shortText, ?_⟩, onward⟩
    have whole := others []
    rwa [List.append_nil, walk_nil] at whole

/-- A directory is entered by its name behind the text of the one above. -/
theorem eq_of_locate_joinText
    {text name : String}
    {place target : Place}
    {inner : List (String × Entry)}
    (proper : IsEntryName name)
    (above : files.locate text = .ok place)
    (present : files.at? (name :: place) = some (.directory inner))
    (located : files.locate (joinText text name) = .ok target) :
    target = name :: place := by
  have nonempty : text ≠ "" := (locate_eq_ok_iff.mp above).2.1
  obtain ⟨middle, left, reached, walked⟩ :=
    exists_walk_of_joinText nonempty proper.head?_ne located
  obtain rfl : place = middle := Except.ok.inj (above.symm.trans reached)
  rw [steps_of_isEntryName proper] at walked
  exact walk_into_directory proper present walked

end ConfigTree.FileSystem
