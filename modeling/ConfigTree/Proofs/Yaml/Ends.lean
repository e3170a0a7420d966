import ConfigTree.Proofs.Text.Ends
import ConfigTree.Yaml.Printer
import Mathlib.Data.List.TakeWhile

/-!
# Ends of YAML pages

Cutting what is blank from the end of a rendered value and ending the line again
gives the rendered value back, unless the value ends in a string that is written
without quotes and is blank at its own end: there the cut goes on into the
string. `Value.keepsEnd` says which values are whole, `Value.trimEnd_render_iff`
that it says so rightly.
-/

namespace ConfigTree.Yaml

open Text (endsInInk trimEnd)

/-! ## Pages -/

namespace Page

/-- Nothing but its last line break is blank at the end of the finished page. -/
def IsWhole (page : Page) : Prop :=
  '\n' :: (page.indent 0).written.dropWhile Text.isBlank =
    (page.indent 0).written

private theorem trimEnd_text_iff (page : Page) :
    trimEnd (page.indent 0).text ++ "\n" = (page.indent 0).text ↔
      page.IsWhole := by
  have cut : (trimEnd (page.indent 0).text ++ "\n").toList =
      ('\n' :: (page.indent 0).written.dropWhile Text.isBlank).reverse := by
    rw [trimEnd, text, String.toList_append, String.toList_ofList,
      String.toList_ofList, List.reverse_reverse, List.reverse_cons]
    rfl
  rw [← String.toList_inj, cut, text, String.toList_ofList, List.reverse_inj]
  exact Iff.rfl

@[simp]
theorem putAll_written (chars : List Char) (page : Page) :
    (page.putAll chars).written = chars.reverse ++ page.written := by
  induction chars generalizing page with
  | nil => rfl
  | cons c rest ih =>
    rw [putAll, List.foldl_cons, ← putAll, ih, List.reverse_cons,
      List.append_assoc]
    rfl

/-- A line that has ink in it is ended by a line break. -/
theorem isWhole_iff_of_inked {page : Page} (inked : page.onlyIndented = false) :
    page.IsWhole ↔ page.written.dropWhile Text.isBlank = page.written := by
  have ended : (page.indent 0).written = '\n' :: page.written := by
    simp only [indent, inked, Bool.false_and, Bool.false_eq_true, if_false,
      putAll_written, Nat.zero_sub, List.replicate_zero, List.reverse_nil,
      List.nil_append]
    rfl
  rw [IsWhole, ended, List.dropWhile_cons_of_pos (by decide), List.cons.injEq,
    and_iff_right rfl]

/-- A line that nothing is written in is not ended once more. -/
theorem isWhole_iff_of_empty
    {page : Page}
    (empty : page.onlyIndented = true)
    (start : page.column = 0)
    (blank : page.afterBlank = true) :
    page.IsWhole ↔
      '\n' :: page.written.dropWhile Text.isBlank = page.written := by
  have same : (page.indent 0).written = page.written := by
    simp [indent, empty, start, blank]
  rw [IsWhole, same]

private theorem isWhole_mark
    {chars : List Char} (notEmpty : chars ≠ []) (setOff : Bool) (page : Page) :
    (page.mark chars setOff).IsWhole ↔ endsInInk chars = true := by
  rw [isWhole_iff_of_inked rfl]
  obtain ⟨before, c, rfl⟩ : ∃ before c, _ = before ++ [c] :=
    ⟨_, _, (List.dropLast_concat_getLast notEmpty).symm⟩
  rw [Text.endsInInk_concat]
  simp [mark]

/-! ## Literal blocks -/

private theorem putLiteralChars_append (column : Nat) (text more : List Char) :
    ∀ (broken : Bool) (page : Page),
      ∃ broken',
        putLiteralChars column broken (text ++ more) page =
          putLiteralChars column broken' more
            (putLiteralChars column broken text page) := by
  induction text with
  | nil => exact fun broken page => ⟨broken, rfl⟩
  | cons c rest ih =>
    intro broken page
    simp only [List.cons_append, putLiteralChars]
    split <;> exact ih ..

private theorem putLiteralChars_afterBlank (column : Nat) (text : List Char) :
    ∀ (broken : Bool) {page : Page}, page.afterBlank = true →
      (putLiteralChars column broken text page).afterBlank = true := by
  induction text with
  | nil => exact fun _ _ blank => blank
  | cons c rest ih =>
    intro broken page blank
    simp only [putLiteralChars]
    split
    · exact ih _ blank
    · refine ih _ ?_
      cases broken
      · exact blank
      · rfl

private theorem putLiteralChars_concat_written
    (column : Nat) (text : List Char) (c : Char) (broken : Bool) (page : Page) :
    ∃ before,
      (putLiteralChars column broken (text ++ [c]) page).written =
        c :: before := by
  obtain ⟨broken', same⟩ := putLiteralChars_append column text [c] broken page
  rw [same]
  simp only [putLiteralChars]
  split <;> exact ⟨_, rfl⟩

end Page

/-- Whether a text ends in ink, or in one line feed behind ink. -/
def endsNearInk (text : List Char) : Bool :=
  endsInInk text || (text.getLast? = some '\n' && endsInInk text.dropLast)

private theorem endsNearInk_concat_of_not_break
    {text : List Char} {c : Char} (notBreak : isBreak c = false) :
    endsNearInk (text ++ [c]) = !Text.isBlank c := by
  have other : c ≠ '\n' := by
    rintro rfl
    cases notBreak
  rw [endsNearInk, Text.endsInInk_concat, List.getLast?_concat]
  simp [other]

private theorem isBlank_of_isBreak
    {c : Char} (ends : isBreak c = true) :
    Text.isBlank c = true := by
  simp only [isBreak, Bool.or_eq_true, decide_eq_true_eq] at ends
  rcases ends with (((rfl | rfl) | rfl) | rfl) | rfl <;> decide

private theorem endsNearInk_concat_of_break
    {text : List Char} {c : Char} (ends : isBreak c = true) :
    endsNearInk (text ++ [c]) = (c = '\n' && endsInInk text) := by
  rw [endsNearInk, Text.endsInInk_concat, isBlank_of_isBreak ends,
    List.getLast?_concat, List.dropLast_concat]
  simp

namespace Page

/-- What stands before the last character of a block: the text before it, or the
end of the header's line. -/
theorem dropWhile_putLiteralChars_iff
    {text : List Char}
    {column : Nat}
    {broken : Bool}
    {page : Page}
    (opened : page.written.head? = some '\n') :
    (putLiteralChars column broken text page).written.dropWhile Text.isBlank =
        (putLiteralChars column broken text page).written ↔
      endsInInk text = true := by
  rcases List.eq_nil_or_concat text with rfl | ⟨before, c, rfl⟩
  · obtain ⟨rest, shape⟩ := List.head?_eq_some_iff.mp opened
    have blank : Text.isBlank '\n' = true := by decide
    rw [putLiteralChars, List.dropWhile_eq_self_iff]
    simp [shape, blank, Text.endsInInk]
  · rw [List.concat_eq_append, Text.endsInInk_concat]
    obtain ⟨rest, shape⟩ :=
      putLiteralChars_concat_written column before c broken page
    simp [shape]

private theorem isWhole_putLiteralChars
    {text : List Char}
    (notEmpty : text ≠ [])
    (column : Nat)
    {broken : Bool}
    {page : Page}
    (opened : page.written.head? = some '\n') (blank : page.afterBlank = true) :
    (putLiteralChars column broken text page).IsWhole ↔
      endsNearInk text = true := by
  obtain ⟨before, c, rfl⟩ : ∃ before c, text = before ++ [c] :=
    ⟨_, _, (List.dropLast_concat_getLast notEmpty).symm⟩
  obtain ⟨broken', same⟩ := putLiteralChars_append column before [c] broken page
  rw [same]
  cases ends : isBreak c with
  | true =>
    have last :
        (putLiteralChars column broken' [c]
            (putLiteralChars column broken before page)).IsWhole ↔
          '\n' ::
              (c ::
                (putLiteralChars column broken before page).written).dropWhile
                Text.isBlank =
            c :: (putLiteralChars column broken before page).written := by
      rw [putLiteralChars, if_pos ends, putLiteralChars]
      exact isWhole_iff_of_empty rfl rfl
        (putLiteralChars_afterBlank column before broken blank)
    rw [last, endsNearInk_concat_of_break ends,
      List.dropWhile_cons_of_pos (isBlank_of_isBreak ends), List.cons.injEq,
      dropWhile_putLiteralChars_iff opened, Bool.and_eq_true, decide_eq_true_eq,
      eq_comm]
  | false =>
    have last :
        ∃ ahead,
          (putLiteralChars column broken' [c]
              (putLiteralChars column broken before page)).IsWhole ↔
            (c :: ahead).dropWhile Text.isBlank = c :: ahead := by
      rw [putLiteralChars, if_neg (by simp [ends]), putLiteralChars]
      exact ⟨_, isWhole_iff_of_inked rfl⟩
    obtain ⟨ahead, last⟩ := last
    rw [last, endsNearInk_concat_of_not_break ends]
    simp

private theorem isWhole_putLiteral
    {text : List Char} (notEmpty : text ≠ []) (column : Nat) (page : Page) :
    (page.putLiteral column text).IsWhole ↔ endsNearInk text = true :=
  isWhole_putLiteralChars notEmpty column rfl rfl

/-! ## Scalars -/

private theorem isWhole_putSingleQuoted
    (column : Nat) (text : List Char) (page : Page) :
    (page.putSingleQuoted column text).IsWhole :=
  (isWhole_mark (List.cons_ne_nil _ _) false _).mpr rfl

private theorem isWhole_putDoubleQuoted
    (text : List Char) (page : Page) :
    (page.putDoubleQuoted text).IsWhole :=
  (isWhole_mark (List.cons_ne_nil _ _) false _).mpr rfl

end Page

/-- Whether a value's text is written in quotes. -/
def isQuoted (wanted : Style) (text : List Char) : Bool :=
  match chosenStyle wanted text false with
  | .singleQuoted | .doubleQuoted => true
  | _ => false

private theorem plain_of_chosenStyle
    {wanted : Style}
    {text : List Char}
    (chosen : chosenStyle wanted text false = .plain) :
    (allowanceOf text).plain = true := by
  by_contra notPlain
  rw [Bool.not_eq_true] at notPlain
  cases wanted <;> cases single : (allowanceOf text).singleQuoted <;>
    cases block : (allowanceOf text).literal <;>
    simp [chosenStyle, notPlain, single, block] at chosen

private theorem not_isBreak_of_plain
    {text : List Char} (plain : (allowanceOf text).plain = true) :
    ∀ c ∈ text, isBreak c = false := by
  cases text with
  | nil => exact fun c mem => absurd mem List.not_mem_nil
  | cons first rest =>
    simp only [allowanceOf, Bool.not_eq_true', Bool.or_eq_false_iff] at plain
    obtain ⟨⟨⟨-, noBreak⟩, -⟩, -⟩ := plain
    exact fun c mem =>
      Bool.eq_false_iff.mpr (List.any_eq_false.mp noBreak c mem)

private theorem endsNearInk_eq_of_forall
    {text : List Char} (noBreak : ∀ c ∈ text, isBreak c = false) :
    endsNearInk text = endsInInk text := by
  rcases List.eq_nil_or_concat text with rfl | ⟨before, c, rfl⟩
  · rfl
  · rw [List.concat_eq_append] at noBreak ⊢
    rw [endsNearInk_concat_of_not_break (noBreak c (by simp)),
      Text.endsInInk_concat]

private theorem Page.isWhole_putScalar
    {wanted : Style}
    {text : String}
    (notEmpty : text.toList ≠ [])
    (column : Nat)
    (page : Page) :
    (page.putScalar column wanted text false).IsWhole ↔
      (isQuoted wanted text.toList || endsNearInk text.toList) = true := by
  rw [putScalar, isQuoted]
  cases chosen : chosenStyle wanted text.toList false with
  | plain =>
    have lines := not_isBreak_of_plain (plain_of_chosenStyle chosen)
    rw [endsNearInk_eq_of_forall lines]
    dsimp only
    rw [putPlain, if_neg (by simpa using notEmpty), isWhole_mark notEmpty]
    rfl
  | singleQuoted => exact iff_of_true (isWhole_putSingleQuoted ..) rfl
  | doubleQuoted => exact iff_of_true (isWhole_putDoubleQuoted ..) rfl
  | literal | folded => exact isWhole_putLiteral notEmpty column page

/-! ## Values -/

namespace Value

mutual

/-- Whether the string that a value ends in, if it ends in one, is quoted or
ends near ink. -/
def keepsEnd : Value → Bool
  | .string text =>
      isQuoted (wantedStyle text) text.toList || endsNearInk text.toList
  | .sequence items => itemsKeepEnd items
  | .mapping entries => entriesKeepEnd entries
  | .tagged _ value => value.keepsEnd
  | _ => true

def itemsKeepEnd : List Value → Bool
  | [] => true
  | [item] => item.keepsEnd
  | _ :: rest => itemsKeepEnd rest

def entriesKeepEnd : List (Value × Value) → Bool
  | [] => true
  | [(_, value)] => value.keepsEnd
  | _ :: rest => entriesKeepEnd rest

end

end Value

@[simp]
theorem endsInInk_numberText
    (value : Number) :
    endsInInk (numberText value).toList = true := by
  cases value with
  | integer value => exact Text.endsInInk_toString value
  | real value => exact Double.endsInInk_text (by decide) (by decide) value

/-- A text that is no string's ends in ink in whatever style. -/
theorem Page.isWhole_putScalar_of_ink
    {wanted : Style}
    {text : String}
    (ink : endsInInk text.toList = true)
    (column : Nat)
    (page : Page) :
    (page.putScalar column wanted text false).IsWhole := by
  have notEmpty : text.toList ≠ [] := by
    intro none
    rw [none] at ink
    cases ink
  rw [isWhole_putScalar notEmpty, endsNearInk, ink, Bool.true_or, Bool.or_true]

private theorem Page.isWhole_putString
    (text : String) (column : Nat) (page : Page) :
    (page.putScalar column (wantedStyle text) text false).IsWhole ↔
      (Value.string text).keepsEnd = true := by
  by_cases empty : text = ""
  · subst empty
    exact iff_of_true (isWhole_putSingleQuoted ..) (by decide)
  · exact isWhole_putScalar (by simpa using empty) column page

mutual

theorem isWhole_putValue :
    ∀ (value : Value) {s : Surroundings} (tag : Option String) (page : Page),
    s.isKey = false →
      ((Page.putValue s tag value page).IsWhole ↔ value.keepsEnd = true)
  | .null, s, tag, page, notKey => by
    rw [Page.putValue, notKey]
    exact iff_of_true (Page.isWhole_putScalar_of_ink (by decide) ..) rfl
  | .bool value, s, tag, page, notKey => by
    rw [Page.putValue, notKey]
    exact iff_of_true
      (Page.isWhole_putScalar_of_ink (by cases value <;> decide) ..) rfl
  | .number value, s, tag, page, notKey => by
    rw [Page.putValue, notKey]
    exact iff_of_true
      (Page.isWhole_putScalar_of_ink (endsInInk_numberText value) ..) rfl
  | .string text, s, tag, page, notKey => by
    rw [Page.putValue, notKey]
    exact Page.isWhole_putString ..
  | .sequence [], s, tag, page, _ => by
    rw [Page.putValue]
    exact
      iff_of_true ((Page.isWhole_mark (List.cons_ne_nil _ _) ..).mpr rfl) rfl
  | .sequence (item :: rest), s, tag, page, _ => by
    rw [Page.putValue]
    exact isWhole_putItems (item :: rest) (List.cons_ne_nil _ _) ..
  | .mapping [], s, tag, page, _ => by
    rw [Page.putValue]
    exact
      iff_of_true ((Page.isWhole_mark (List.cons_ne_nil _ _) ..).mpr rfl) rfl
  | .mapping (entry :: rest), s, tag, page, _ => by
    rw [Page.putValue]
    exact isWhole_putEntries (entry :: rest) (List.cons_ne_nil _ _) ..
  | .tagged _ value, s, tag, page, notKey => by
    rw [Page.putValue]
    exact isWhole_putValue value _ page notKey

theorem isWhole_putItems :
    ∀ (items : List Value), items ≠ [] → ∀ (column : Nat) (page : Page),
    (Page.putItems column items page).IsWhole ↔ Value.itemsKeepEnd items = true
  | [], notEmpty, _, _ => absurd rfl notEmpty
  | [item], _, column, page => by
    rw [Page.putItems, Page.putItems]
    exact isWhole_putValue item none _ rfl
  | _ :: next :: rest, _, column, page => by
    rw [Page.putItems]
    exact isWhole_putItems (next :: rest) (List.cons_ne_nil _ _) column _

theorem isWhole_putEntries :
    ∀ (entries : List (Value × Value)),
      entries ≠ [] → ∀ (column : Nat) (page : Page),
    (Page.putEntries column entries page).IsWhole ↔
      Value.entriesKeepEnd entries = true
  | [], notEmpty, _, _ => absurd rfl notEmpty
  | [(_, value)], _, column, page => by
    rw [Page.putEntries, Page.putEntries]
    exact isWhole_putValue value none _ rfl
  | _ :: next :: rest, _, column, page => by
    rw [Page.putEntries]
    exact isWhole_putEntries (next :: rest) (List.cons_ne_nil _ _) column _

end

/-- A rendered value is what is left of it without the blank at its end, with
one line break behind, exactly when the value keeps its end. -/
theorem Value.trimEnd_render_iff (value : Value) :
    trimEnd value.render ++ "\n" = value.render ↔ value.keepsEnd = true :=
  (Page.trimEnd_text_iff _).trans (isWhole_putValue value none .blank rfl)

example : (Value.string "a\n").keepsEnd = true ∧
    (Value.string "a\n\n").keepsEnd = false := by
  decide +kernel

end ConfigTree.Yaml
