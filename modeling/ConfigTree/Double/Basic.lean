/-!
# Floating-point numbers of 64 bits

A number is kept as its exact value, a significand times a power of two, so that
reading, arithmetic and writing are plain integer arithmetic. `ofRatio` is the
one place where a value is rounded: to the nearest number, a tie to the even
significand.
-/

namespace ConfigTree

/-- A finite number stands for `significand * 2 ^ exponent`, negated if
`negative`. -/
inductive Double where
  | nan
  | infinite (negative : Bool)
  | finite (negative : Bool) (significand : Nat) (exponent : Int)
deriving DecidableEq, Repr, Inhabited

namespace Double

def leastExponent : Int := -1074

def greatestExponent : Int := 971

def zero (negative : Bool) : Double :=
  .finite negative 0 leastExponent

def isFinite : Double → Bool
  | .finite .. => true
  | _ => false

def negate : Double → Double
  | .nan => .nan
  | .infinite negative => .infinite !negative
  | .finite negative significand exponent =>
      .finite (!negative) significand exponent

/-- The quotient rounded to the nearest integer, a tie to the even one. -/
def roundQuotient (numerator denominator : Nat) : Nat :=
  let quotient := numerator / denominator
  let remainder := numerator % denominator
  if 2 * remainder < denominator then quotient
  else if denominator < 2 * remainder then quotient + 1
  else if quotient % 2 = 0 then quotient
  else quotient + 1

/-- The numerator and denominator of the ratio divided by `2 ^ exponent`. -/
def scaleDown (numerator denominator : Nat) (exponent : Int) : Nat × Nat :=
  if exponent < 0 then (numerator * Nat.pow 2 (-exponent).toNat, denominator)
  else (numerator, denominator * Nat.pow 2 exponent.toNat)

/-- The exponent at which the ratio has a significand of 53 bits, or the least
one. -/
def exponentOf (numerator denominator : Nat) : Int :=
  let guess : Int :=
    (Nat.log2 numerator : Int) - (Nat.log2 denominator : Int) - 53
  let scaled := scaleDown numerator denominator guess
  let exact := if Nat.pow 2 53 * scaled.2 ≤ scaled.1 then guess + 1 else guess
  max exact leastExponent

/-- The number nearest to `numerator / denominator`, for a denominator that is
not zero. -/
def ofRatio (negative : Bool) (numerator denominator : Nat) : Double :=
  if numerator = 0 then zero negative
  else
    let exponent := exponentOf numerator denominator
    let scaled := scaleDown numerator denominator exponent
    let significand := roundQuotient scaled.1 scaled.2
    let carried := significand = Nat.pow 2 53
    let significand := if carried then Nat.pow 2 52 else significand
    let exponent := if carried then exponent + 1 else exponent
    if greatestExponent < exponent then .infinite negative
    else .finite negative significand exponent

def ofNat (n : Nat) : Double :=
  ofRatio false n 1

/-- The number nearest to `digits * 10 ^ exponent`. A magnitude far out of range
is settled without computing the power. -/
def ofDecimal (negative : Bool) (digits : Nat) (exponent : Int) : Double :=
  let magnitude : Int := (Nat.log2 digits : Int) * 3 / 10 + exponent
  if digits = 0 then zero negative
  else if 330 < magnitude then .infinite negative
  else if magnitude + (Nat.log2 digits : Int) / 30 + 2 < -330 then zero negative
  else
    if exponent < 0 then ofRatio negative digits (Nat.pow 10 (-exponent).toNat)
  else ofRatio negative (digits * Nat.pow 10 exponent.toNat) 1

/-- The numerator and denominator of a finite number's magnitude. -/
def ratio (significand : Nat) (exponent : Int) : Nat × Nat :=
  if exponent < 0 then (significand, Nat.pow 2 (-exponent).toNat)
  else (significand * Nat.pow 2 exponent.toNat, 1)

def mul : Double → Double → Double
  | .finite n m q, .finite n' m' q' =>
    let left := ratio m q
    let right := ratio m' q'
    ofRatio (n != n') (left.1 * right.1) (left.2 * right.2)
  | .nan, _ | _, .nan => .nan
  | .infinite n, .infinite n' => .infinite (n != n')
  | .infinite n, .finite n' m _ | .finite n' m _, .infinite n =>
      if m = 0 then .nan else .infinite (n != n')

/-- Division by a finite number that is not zero. -/
def div : Double → Double → Double
  | .finite n m q, .finite n' m' q' =>
    let left := ratio m q
    let right := ratio m' q'
    if m' = 0 then (if m = 0 then .nan else .infinite (n != n'))
    else ofRatio (n != n') (left.1 * right.2) (left.2 * right.1)
  | .nan, _ | _, .nan => .nan
  | .infinite _, .infinite _ => .nan
  | .infinite n, .finite n' _ _ => .infinite (n != n')
  | .finite n _ _, .infinite n' => zero (n != n')

/-- Equality of values, for which both zeros are one number and NaN equals
itself. -/
def same : Double → Double → Bool
  | .finite n m q, .finite n' m' q' =>
      (m = 0 && m' = 0) || (n = n' && m = m' && q = q')
  | left, right => left = right

end Double

end ConfigTree
