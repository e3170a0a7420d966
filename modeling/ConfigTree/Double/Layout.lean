import ConfigTree.Double.Shortest

/-!
# Written form of floating-point numbers

The digits are the shortest ones; a `Layout` says where the point goes and how
an exponent is spelled.
-/

namespace ConfigTree.Double

/-- How a format writes its numbers. -/
structure Layout where
  leastPositional : Int
  greatestPositional : Int
  positiveExponent : String
  nan : String
  infinity : String

/-- The digits with a point after the first and an exponent, the point left out
after a single digit. -/
def scientific
    (layout : Layout) (digits : List Char) (exponent : Int) :
    List Char :=
  let mantissa := match digits with
    | [] => []
    | [digit] => [digit]
    | digit :: fraction => digit :: '.' :: fraction
  let sign := if exponent < 0 then "e-" else layout.positiveExponent
  mantissa ++ sign.toList ++ Nat.toDigits 10 exponent.natAbs

/-- The digits in positional notation, with a fraction in any case. -/
def positional (digits : List Char) (exponent : Int) : List Char :=
  let count : Int := digits.length
  if exponent < 0 then
    '0' :: '.' :: List.replicate (-exponent - 1).toNat '0' ++ digits
  else if count ≤ exponent + 1 then
    digits ++ List.replicate (exponent + 1 - count).toNat '0' ++ ['.', '0']
  else
    digits.take (exponent + 1).toNat ++ '.' :: digits.drop (exponent + 1).toNat

/-- A magnitude in the given layout. -/
def magnitudeText
    (layout : Layout) (significand : Nat) (exponent : Int) :
    List Char :=
  if significand = 0 then ['0', '.', '0']
  else
    let decimal := shortest significand exponent
    let digits := Nat.toDigits 10 decimal.digits
    let exponent := decimal.exponent + digits.length - 1
    if layout.leastPositional ≤ exponent ∧
        exponent ≤ layout.greatestPositional then
      positional digits exponent
    else scientific layout digits exponent

def text (layout : Layout) : Double → String
  | .nan => layout.nan
  | .infinite negative =>
      if negative then "-" ++ layout.infinity else layout.infinity
  | .finite negative significand exponent =>
    String.ofList
      ((if negative then ['-'] else []) ++
        magnitudeText layout significand exponent)

end ConfigTree.Double
