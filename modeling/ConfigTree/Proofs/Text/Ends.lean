import ConfigTree.Double.Layout
import ConfigTree.Text.Blank

/-!
# Ends of texts

What is cut from the end of printed output is blank, so a text that ends in ink
keeps its end (`trimEnd_eq_self`). Every number does, however it is laid out.
-/

namespace ConfigTree.Text

/-- Whether the last character is not blank. An empty text has none. -/
def endsInInk (text : List Char) : Bool :=
  text.getLast?.any fun c => !isBlank c

@[simp]
theorem endsInInk_concat
    {before : List Char} {c : Char} :
    endsInInk (before ++ [c]) = !isBlank c := by
  rw [endsInInk, List.getLast?_concat]
  rfl

private theorem endsInInk_iff {text : List Char} :
    endsInInk text = true ↔
      ∃ before c, text = before ++ [c] ∧ isBlank c = false := by
  rcases List.eq_nil_or_concat text with rfl | ⟨before, c, rfl⟩
  · simp [endsInInk]
  · rw [List.concat_eq_append, endsInInk_concat, Bool.not_eq_true']
    constructor
    · exact fun ink => ⟨before, c, rfl, ink⟩
    · rintro ⟨before', c', same, ink⟩
      obtain ⟨-, same⟩ := List.append_inj' same rfl
      cases same
      exact ink

theorem endsInInk_append
    {before text : List Char} (ink : endsInInk text = true) :
    endsInInk (before ++ text) = true := by
  obtain ⟨inner, c, rfl, visible⟩ := endsInInk_iff.mp ink
  exact
    endsInInk_iff.mpr ⟨before ++ inner, c, (List.append_assoc ..).symm, visible⟩

private theorem endsInInk_cons
    {c : Char} {text : List Char} (ink : endsInInk text = true) :
    endsInInk (c :: text) = true := by
  rw [← List.singleton_append]
  exact endsInInk_append ink

private theorem endsInInk_of_forall
    {text : List Char}
    (notEmpty : text ≠ [])
    (ink : ∀ c ∈ text, isBlank c = false) :
    endsInInk text = true :=
  endsInInk_iff.mpr
    ⟨text.dropLast, text.getLast notEmpty,
      (List.dropLast_concat_getLast notEmpty).symm,
      ink _ (List.getLast_mem notEmpty)⟩

theorem trimEnd_eq_self
    {text : String} (ink : endsInInk text.toList = true) :
    trimEnd text = text := by
  obtain ⟨before, c, shape, visible⟩ := endsInInk_iff.mp ink
  rw [trimEnd, shape, List.reverse_append, List.reverse_singleton,
    List.singleton_append, List.dropWhile_cons_of_neg (by simp [visible]),
    List.reverse_cons, List.reverse_reverse, ← shape, String.ofList_toList]

/-! ## Numbers -/

private theorem not_isBlank_of_isDigit
    {c : Char} (digit : c.isDigit = true) :
    isBlank c = false := by
  have range : 48 ≤ c.toNat ∧ c.toNat ≤ 57 := by
    simpa [Char.isDigit, UInt32.le_iff_toNat_le] using digit
  simp only [isBlank, Bool.or_eq_false_iff, Bool.and_eq_false_iff,
    decide_eq_false_iff_not, beq_eq_false_iff_ne]
  omega

@[simp]
theorem endsInInk_toDigits (n : Nat) : endsInInk (Nat.toDigits 10 n) = true :=
  endsInInk_of_forall Nat.toDigits_ne_nil fun _ mem =>
    not_isBlank_of_isDigit
      (Nat.isDigit_of_mem_toDigits (by decide) (by decide) mem)

@[simp]
theorem endsInInk_toString
    (n : Int) :
    endsInInk (toString n).toList = true := by
  change endsInInk n.repr.toList = true
  rw [Int.repr_eq_if]
  split
  · rw [Nat.toList_repr]
    exact endsInInk_toDigits _
  · rw [String.toList_append, Nat.toList_repr]
    exact endsInInk_append (endsInInk_toDigits _)

end ConfigTree.Text

namespace ConfigTree.Double

open Text

@[simp]
theorem endsInInk_scientific
    (layout : Layout) (digits : List Char) (exponent : Int) :
    endsInInk (scientific layout digits exponent) = true :=
  endsInInk_append (endsInInk_toDigits _)

private theorem endsInInk_positional
    {digits : List Char}
    (notEmpty : digits ≠ [])
    (ink : ∀ c ∈ digits, isBlank c = false)
    (exponent : Int) :
    endsInInk (positional digits exponent) = true := by
  unfold positional
  dsimp only
  split
  case isTrue => exact endsInInk_append (endsInInk_of_forall notEmpty ink)
  case isFalse notNegative =>
    split
    case isTrue => exact endsInInk_append (by decide)
    case isFalse more =>
      have left : digits.drop (exponent + 1).toNat ≠ [] := by
        rw [Ne, List.drop_eq_nil_iff]
        omega
      exact endsInInk_append
        (endsInInk_cons
          (endsInInk_of_forall left fun c mem =>
            ink c (List.mem_of_mem_drop mem)))

@[simp]
theorem endsInInk_magnitudeText
    (layout : Layout) (significand : Nat) (exponent : Int) :
    endsInInk (magnitudeText layout significand exponent) = true := by
  unfold magnitudeText
  split
  · decide
  · dsimp only
    split
    · exact endsInInk_positional Nat.toDigits_ne_nil
        (fun _ mem => not_isBlank_of_isDigit
          (Nat.isDigit_of_mem_toDigits (by decide) (by decide) mem)) _
    · exact endsInInk_scientific ..

theorem endsInInk_text
    {layout : Layout}
    (nan : endsInInk layout.nan.toList = true)
    (infinity : endsInInk layout.infinity.toList = true)
    (value : Double) : endsInInk (value.text layout).toList = true := by
  cases value with
  | nan => exact nan
  | infinite negative =>
    cases negative with
    | false => exact infinity
    | true =>
      change endsInInk ("-" ++ layout.infinity).toList = true
      rw [String.toList_append]
      exact endsInInk_append infinity
  | finite negative significand exponent =>
    rw [text, String.toList_ofList]
    exact endsInInk_append (endsInInk_magnitudeText ..)

end ConfigTree.Double
