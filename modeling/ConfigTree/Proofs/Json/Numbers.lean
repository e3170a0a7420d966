import ConfigTree.Json.Value
import Mathlib.Tactic.Ring

/-!
# Numbers of JSON texts

A JSON text has no number that is not finite: a numeral is read as at most 64
bits of digits, scaled up only as far as the result is finite and scaled down
otherwise. Main statement: `isFinite_of_numberOf`.
-/

namespace ConfigTree.Double

/-- A finite number whose magnitude is not above the bound. -/
def AtMost (bound : Nat) : Double → Prop
  | .finite _ significand exponent =>
      (ratio significand exponent).1 ≤ bound * (ratio significand exponent).2
  | _ => False

/-- A finite number whose magnitude is not below two. -/
def AtLeastTwo : Double → Prop
  | .finite _ significand exponent =>
      2 * (ratio significand exponent).2 ≤ (ratio significand exponent).1
  | _ => False

instance (value : Double) : Decidable value.AtLeastTwo :=
  match value with
  | .finite _ significand exponent =>
    inferInstanceAs
      (Decidable
        (2 * (ratio significand exponent).2 ≤ (ratio significand exponent).1))
  | .nan => inferInstanceAs (Decidable False)
  | .infinite _ => inferInstanceAs (Decidable False)

private theorem atMost_finite
    {bound significand : Nat} {negative : Bool} {exponent : Int} :
    (finite negative significand exponent).AtMost bound ↔
      (ratio significand exponent).1 ≤ bound * (ratio significand exponent).2 :=
  Iff.rfl

private theorem atLeastTwo_finite
    {significand : Nat} {negative : Bool} {exponent : Int} :
    (finite negative significand exponent).AtLeastTwo ↔
      2 * (ratio significand exponent).2 ≤ (ratio significand exponent).1 :=
  Iff.rfl

private theorem isFinite_of_atMost
    {bound : Nat} {value : Double} (within : value.AtMost bound) :
    value.isFinite = true := by
  cases value with
  | finite negative significand exponent => rfl
  | nan => exact within.elim
  | infinite negative => exact within.elim

private theorem isFinite_negate
    {value : Double} (finite : value.isFinite = true) :
    value.negate.isFinite = true := by
  cases value with
  | finite negative significand exponent => rfl
  | nan => cases finite
  | infinite negative => cases finite

/-! ## Rounding -/

/-- Rounding to the nearest integer at most doubles a quotient. -/
theorem roundQuotient_mul_le (numerator denominator : Nat) :
    roundQuotient numerator denominator * denominator ≤ 2 * numerator := by
  have division :
      numerator / denominator * denominator + numerator % denominator =
        numerator :=
    Nat.div_add_mod' numerator denominator
  have down : numerator / denominator * denominator ≤ 2 * numerator := by omega
  have up :
      denominator ≤ 2 * (numerator % denominator) →
        (numerator / denominator + 1) * denominator ≤ 2 * numerator := by
    intro half
    rw [Nat.add_mul, Nat.one_mul]
    omega
  unfold roundQuotient
  dsimp only
  split
  · exact down
  · split
    · exact up (by omega)
    · split
      · exact down
      · exact up (by omega)

private theorem ratio_of_neg
    {exponent : Int} (significand : Nat) (negative : exponent < 0) :
    ratio significand exponent = (significand, 2 ^ (-exponent).toNat) :=
  if_pos negative

private theorem ratio_of_nonneg
    {exponent : Int} (significand : Nat) (nonnegative : ¬exponent < 0) :
    ratio significand exponent = (significand * 2 ^ exponent.toNat, 1) :=
  if_neg nonnegative

private theorem ratio_snd_pos
    (significand : Nat) (exponent : Int) :
    0 < (ratio significand exponent).2 := by
  unfold ratio
  split
  · exact Nat.pow_pos (by decide)
  · exact Nat.one_pos

private theorem fst_ratio_zero (exponent : Int) : (ratio 0 exponent).1 = 0 := by
  unfold ratio
  split
  · rfl
  · exact Nat.zero_mul _

private theorem exponentOf_le (numerator denominator : Nat) :
    exponentOf numerator denominator ≤
      max ((Nat.log2 numerator : Int) - (Nat.log2 denominator : Int) - 52)
        leastExponent := by
  unfold exponentOf
  dsimp only
  split <;> omega

/-- The logarithms of a bounded ratio's parts are near each other. -/
theorem log2_le_of_le_mul
    {numerator denominator : Nat}
    (bits : Nat)
    (within : numerator ≤ 2 ^ bits * denominator) :
    numerator.log2 ≤ bits + denominator.log2 := by
  by_cases none : numerator = 0
  · subst none
    exact Nat.zero_le _
  · have below : denominator < 2 ^ (denominator.log2 + 1) := Nat.lt_log2_self
    have product :
        2 ^ bits * denominator < 2 ^ bits * 2 ^ (denominator.log2 + 1) :=
      Nat.mul_lt_mul_of_pos_left below (Nat.pow_pos (by decide))
    have less : numerator.log2 < bits + (denominator.log2 + 1) := by
      rw [Nat.log2_lt none, Nat.pow_add]
      exact Nat.lt_of_le_of_lt within product
    omega

/-- Halving a significand and adding one to the exponent leaves the magnitude as
it is. -/
theorem atMost_succ_iff
    {bound significand : Nat} {negative : Bool} {exponent : Int} :
    (finite negative significand (exponent + 1)).AtMost bound ↔
      (finite negative (2 * significand) exponent).AtMost bound := by
  rw [atMost_finite, atMost_finite]
  rcases lt_trichotomy exponent (-1) with below | atOne | above
  · rw [ratio_of_neg _ (by omega), ratio_of_neg _ (by omega)]
    have power : (-exponent).toNat = (-(exponent + 1)).toNat + 1 := by omega
    rw [power, Nat.pow_succ]
    generalize 2 ^ (-(exponent + 1)).toNat = unit
    dsimp only
    rw [← Nat.mul_assoc, Nat.mul_comm _ 2]
    omega
  · subst atOne
    change significand * 1 ≤ bound * 1 ↔ 2 * significand ≤ bound * 2
    omega
  · rw [ratio_of_nonneg _ (by omega), ratio_of_nonneg _ (by omega)]
    have power : (exponent + 1).toNat = exponent.toNat + 1 := by omega
    rw [power, Nat.pow_succ, Nat.mul_comm (2 ^ _) 2, ← Nat.mul_assoc,
      Nat.mul_comm significand 2]

/-- The significand that a ratio has at an exponent stands for at most twice the
ratio. -/
theorem atMost_roundQuotient
    {bound numerator denominator : Nat} (negative : Bool) (exponent : Int)
    (positive : 0 < denominator) (within : numerator ≤ bound * denominator) :
    (finite negative (roundQuotient (scaleDown numerator denominator exponent).1
      (scaleDown numerator denominator exponent).2) exponent).AtMost
          (2 * bound) := by
  have rounded :=
    roundQuotient_mul_le (scaleDown numerator denominator exponent).1
      (scaleDown numerator denominator exponent).2
  generalize roundQuotient (scaleDown numerator denominator exponent).1
    (scaleDown numerator denominator exponent).2 = significand at rounded ⊢
  rw [atMost_finite]
  by_cases below : exponent < 0
  · rw [ratio_of_neg _ below]
    simp only [scaleDown, if_pos below, Nat.pow_eq] at rounded ⊢
    refine Nat.le_of_mul_le_mul_right ?_ positive
    calc significand * denominator
        ≤ 2 * (numerator * 2 ^ (-exponent).toNat) := rounded
      _ ≤ 2 * (bound * denominator * 2 ^ (-exponent).toNat) := by gcongr
      _ = 2 * bound * 2 ^ (-exponent).toNat * denominator := by ring
  · rw [ratio_of_nonneg _ below]
    simp only [scaleDown, if_neg below, Nat.pow_eq] at rounded ⊢
    refine Nat.le_of_mul_le_mul_right ?_ positive
    calc significand * 2 ^ exponent.toNat * denominator
        = significand * (denominator * 2 ^ exponent.toNat) := by ring
      _ ≤ 2 * numerator := rounded
      _ ≤ 2 * (bound * denominator) := by gcongr
      _ = 2 * bound * 1 * denominator := by ring

/-- The number nearest to a ratio that is not near the greatest number is at
most twice the ratio. -/
theorem atMost_ofRatio {bits numerator denominator : Nat} (negative : Bool)
    (moderate : bits ≤ 900)
    (positive : 0 < denominator)
    (within : numerator ≤ 2 ^ bits * denominator) :
    (ofRatio negative numerator denominator).AtMost (2 ^ (bits + 1)) := by
  rw [Nat.pow_succ, Nat.mul_comm]
  unfold ofRatio
  split
  · exact Nat.zero_le _
  · have least : exponentOf numerator denominator ≤ 900 := by
      have exponentBound := exponentOf_le numerator denominator
      have logarithms := log2_le_of_le_mul bits within
      have floor : leastExponent ≤ 0 := by decide
      omega
    have rounded :=
      atMost_roundQuotient negative (exponentOf numerator denominator) positive
        within
    have inRange :
        ∀ exponent : Int, exponent ≤ 901 → ¬greatestExponent < exponent := by
      intro exponent small
      unfold greatestExponent
      omega
    dsimp only
    split
    next carried =>
      rw [if_neg (inRange _ (by omega)), atMost_succ_iff]
      rw [carried] at rounded
      exact rounded
    next uncarried =>
      rw [if_neg (inRange _ (by omega))]
      exact rounded

/-! ## Dividing -/

/-- Dividing by two or more keeps a bound. -/
theorem atMost_div {bits : Nat} {value divisor : Double}
    (moderate : bits ≤ 900)
    (within : value.AtMost (2 ^ (bits + 1)))
    (two : divisor.AtLeastTwo) :
    (value.div divisor).AtMost (2 ^ (bits + 1)) := by
  cases value with
  | nan => exact within.elim
  | infinite negative => exact within.elim
  | finite negative significand exponent =>
    cases divisor with
    | nan => exact two.elim
    | infinite negative' => exact two.elim
    | finite negative' significand' exponent' =>
      rw [atMost_finite] at within
      rw [atLeastTwo_finite] at two
      have positive := ratio_snd_pos significand exponent
      have positive' := ratio_snd_pos significand' exponent'
      have notZero : significand' ≠ 0 := by
        rintro rfl
        rw [fst_ratio_zero] at two
        omega
      unfold div
      dsimp only
      rw [if_neg notZero]
      refine atMost_ofRatio _ moderate (Nat.mul_pos positive (by omega)) ?_
      generalize ratio significand exponent = left at within positive ⊢
      generalize ratio significand' exponent' = right at two positive' ⊢
      calc left.1 * right.2
          ≤ 2 ^ (bits + 1) * left.2 * right.2 := by gcongr
        _ = 2 ^ bits * left.2 * (2 * right.2) := by ring
        _ ≤ 2 ^ bits * left.2 * right.1 := by gcongr
        _ = 2 ^ bits * (left.2 * right.1) := by ring

end ConfigTree.Double

namespace ConfigTree.Json

open Double

/-! ## Numerals -/

private theorem atLeastTwo_scale
    (exponent : Nat)
    (reached : exponent ≤ greatestScale)
    (positive : 0 < exponent) :
    (scale exponent).AtLeastTwo := by
  -- no bound on rounded powers is needed where each of the few powers can be
  -- computed
  have each :
      ∀ exponent < greatestScale + 1,
        0 < exponent → (scale exponent).AtLeastTwo := by
    decide +kernel
  exact each exponent (Nat.lt_succ_of_le reached) positive

private theorem atMost_div_scale
    {bits : Nat} {value : Double} {exponent : Nat} (moderate : bits ≤ 900)
    (within : value.AtMost (2 ^ (bits + 1)))
    (reached : exponent ≤ greatestScale)
    (positive : 0 < exponent) :
    (value.div (scale exponent)).AtMost (2 ^ (bits + 1)) :=
  atMost_div moderate within (atLeastTwo_scale exponent reached positive)

private theorem atMost_scaleDown
    {bits : Nat} (moderate : bits ≤ 900) (value : Double) (exponent : Nat)
    (down : 0 < exponent) (within : value.AtMost (2 ^ (bits + 1))) :
    (scaleDown value exponent).AtMost (2 ^ (bits + 1)) := by
  fun_induction scaleDown value exponent with
  | case1 value exponent reached =>
      exact atMost_div_scale moderate within reached down
  | case2 exponent beyond => exact within
  | case3 value exponent beyond notZero inductionHypothesis =>
    exact inductionHypothesis (by omega)
      (atMost_div_scale moderate within (Nat.le_refl greatestScale) (by decide))

private theorem isFinite_of_scaled?
    {significand : Nat} {exponent : Int} {value : Double}
    (fits : significand ≤ Number.greatestUnsigned)
    (scaled : scaled? significand exponent = some value) :
    value.isFinite = true := by
  have bits : significand ≤ 2 ^ 64 * 1 := Nat.le_trans fits (by decide)
  have start : (Double.ofNat significand).AtMost (2 ^ (64 + 1)) :=
    atMost_ofRatio false (by decide) Nat.one_pos bits
  unfold scaled? at scaled
  dsimp only at scaled
  split at scaled
  next down =>
    cases scaled
    exact isFinite_of_atMost (atMost_scaleDown (by decide) _ _ (by omega) start)
  next =>
    split at scaled
    next =>
      split at scaled
      next finite =>
        cases scaled
        exact finite
      next => cases scaled
    next =>
      split at scaled
      next =>
        cases scaled
        exact isFinite_of_atMost start
      next => cases scaled

private theorem significand_whole_le (digits : List Char) :
    (Gathered.whole digits).significand ≤ Number.greatestUnsigned := by
  unfold Gathered.whole
  refine List.foldlRecOn
    (motive := fun gathered : Gathered =>
      gathered.significand ≤ Number.greatestUnsigned) digits _ (Nat.zero_le _)
    ?_
  intro gathered fits digit _
  dsimp only
  split
  next taken => exact of_decide_eq_true (Bool.and_eq_true_iff.mp taken).2
  next => exact fits

private theorem fst_fraction_le
    (significand : Nat)
    (digits : List Char)
    (fits : significand ≤ Number.greatestUnsigned) :
    (Gathered.fraction significand digits).1 ≤ Number.greatestUnsigned := by
  induction digits generalizing significand with
  | nil => exact fits
  | cons digit rest inductionHypothesis =>
    unfold Gathered.fraction
    dsimp only
    split
    next taken => exact inductionHypothesis _ taken
    next => exact fits

/-- A numeral that is read as a floating-point number stands for a finite
one. -/
theorem isFinite_of_numberOf
    {numeral : Numeral}
    {value : Double}
    (read : numberOf numeral = some (.real value)) :
    value.isFinite = true := by
  unfold numberOf at read
  dsimp only at read
  split at read
  · cases read
  · obtain ⟨magnitude, scaled, signed⟩ := Option.map_eq_some_iff.mp read
    have finite :=
      isFinite_of_scaled? (fst_fraction_le _ _ (significand_whole_le _)) scaled
    cases signed
    split
    · exact isFinite_negate finite
    · exact finite

end ConfigTree.Json
