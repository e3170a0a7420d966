import ConfigTree.Double.Basic

/-!
# Shortest decimal digits

The decimal that reads back as a given number with the fewest digits, and among
those the nearest to it. All reals that round to the number form an interval,
whose ends belong to it exactly when the significand is even; on the grid of
decimals with a given count of digits only the two neighbours of the number can
be its shortest form.
-/

namespace ConfigTree.Double

/-- `digits * 10 ^ exponent` -/
structure Decimal where
  digits : Nat
  exponent : Int
deriving DecidableEq, Repr

/-- The reals that round to a number: its value and both ends over one
denominator. -/
structure Neighbourhood where
  lower : Nat
  value : Nat
  upper : Nat
  denominator : Nat
  closed : Bool

def neighbourhood (significand : Nat) (exponent : Int) : Neighbourhood :=
  let below :=
    if significand = Nat.pow 2 52 ∧ exponent ≠ leastExponent then 1 else 2
  let scale := if exponent < 2 then 1 else Nat.pow 2 (exponent - 2).toNat
  { lower := (4 * significand - below) * scale
    value := 4 * significand * scale
    upper := (4 * significand + 2) * scale
    denominator := if exponent < 2 then Nat.pow 2 (2 - exponent).toNat else 1
    closed := significand % 2 = 0 }

/-- Whether `numerator / denominator` lies in the neighbourhood. -/
def Neighbourhood.holds
    (n : Neighbourhood) (numerator denominator : Nat) :
    Bool :=
  if n.closed then
    n.lower * denominator ≤
      numerator * n.denominator && numerator * n.denominator ≤
      n.upper * denominator
  else
    n.lower * denominator <
      numerator * n.denominator && numerator * n.denominator <
      n.upper * denominator

/-- The point of the grid of multiples of `10 ^ exponent` that lies in the
neighbourhood, the nearer one if both neighbours of the value do. -/
def Neighbourhood.onGrid
    (n : Neighbourhood) (exponent : Int) :
    Option Decimal :=
  let up := if exponent < 0 then Nat.pow 10 (-exponent).toNat else 1
  let down := if exponent < 0 then 1 else Nat.pow 10 exponent.toNat
  let numerator := n.value * up
  let denominator := n.denominator * down
  let floor := numerator / denominator
  let remainder := numerator % denominator
  let below := floor ≠ 0 && n.holds (floor * down) up
  let above := n.holds ((floor + 1) * down) up
  if below && above then
    if 2 * remainder <
        denominator || (2 * remainder = denominator && floor % 2 = 0) then
      some ⟨floor, exponent⟩
    else some ⟨floor + 1, exponent⟩
  else if below then some ⟨floor, exponent⟩
  else if above then some ⟨floor + 1, exponent⟩
  else none

/-- The greatest power of ten that is not above the value. -/
def Neighbourhood.decade (n : Neighbourhood) : Int :=
  if n.denominator ≤ n.value then
    ((Nat.toDigits 10 (n.value / n.denominator)).length : Int) - 1
  else
    let inverse := (n.denominator + n.value - 1) / n.value
    Int.neg (Nat.toDigits 10 (inverse - 1)).length

/-- The decimal without zeros at the end of its digits. -/
def Decimal.trim (decimal : Decimal) : Decimal :=
  let zeros :=
    ((Nat.toDigits 10 decimal.digits).reverse.takeWhile (· = '0')).length
  ⟨decimal.digits / Nat.pow 10 zeros, decimal.exponent + zeros⟩

/-- The shortest decimal of `significand * 2 ^ exponent`, for a significand that
is not zero: the first grid that has a point in the neighbourhood settles the
count of digits. -/
def shortest (significand : Nat) (exponent : Int) : Decimal :=
  let n := neighbourhood significand exponent
  let decade := n.decade
  let candidates :=
    (List.range 17).filterMap fun (count : Nat) => n.onGrid (decade - count)
  match candidates with
  | decimal :: _ => decimal.trim
  | [] => (⟨n.value / n.denominator, 0⟩ : Decimal)

end ConfigTree.Double
