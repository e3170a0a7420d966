import ConfigTree.Double.Basic

/-!
# Reading decimal text

A decimal is an optional sign, digits with at most one point among or around
them, and an optional exponent. The words for infinity and not-a-number are
accepted in any case.
-/

namespace ConfigTree.Double

/-- The number that decimal digits write. -/
def digitsValue (digits : List Char) : Nat :=
  digits.foldl (fun n digit => 10 * n + (digit.toNat - '0'.toNat)) 0

/-- A sign, if there is one, and what follows it. -/
def splitSign : List Char → Bool × List Char
  | '-' :: rest => (true, rest)
  | '+' :: rest => (false, rest)
  | rest => (false, rest)

/-- The power of ten that an exponent part adds, where nothing adds none. -/
def exponentPart : List Char → Option Int
  | [] => some 0
  | mark :: rest =>
    let (negative, digits) := splitSign rest
    if (mark = 'e' || mark = 'E') && !digits.isEmpty &&
      digits.all Char.isDigit then
      let n : Int := digitsValue digits
      some (if negative then -n else n)
    else none

/-- The value of an unsigned decimal. -/
def ofUnsigned? (negative : Bool) (text : List Char) : Option Double :=
  let whole := text.takeWhile Char.isDigit
  let afterWhole := text.dropWhile Char.isDigit
  let (fraction, afterFraction) := match afterWhole with
    | '.' :: rest => (rest.takeWhile Char.isDigit, rest.dropWhile Char.isDigit)
    | rest => ([], rest)
  if whole.isEmpty && fraction.isEmpty then none
  else
    (exponentPart afterFraction).map fun exponent =>
      ofDecimal negative (digitsValue (whole ++ fraction))
        (exponent - fraction.length)

/-- The number that a text writes, if it writes one. -/
def ofText? (text : List Char) : Option Double :=
  let (negative, unsigned) := splitSign text
  let word := String.ofList (unsigned.map Char.toLower)
  if word = "inf" || word = "infinity" then some (.infinite negative)
  else if word = "nan" then some .nan
  else ofUnsigned? negative unsigned

end ConfigTree.Double
