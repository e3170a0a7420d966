import ConfigTree.Double.Reading
import ConfigTree.Number

/-!
# Meaning of plain scalars

A scalar without quotes is null, a truth value, a number or, failing these, a
string. The words are accepted in lower case, capitalised, or in upper case.
-/

namespace ConfigTree.Yaml

/-- What a plain scalar stands for. An integer too great for 64 bits but not for
128 has no value at all. -/
inductive Plain where
  | null
  | bool (value : Bool)
  | number (value : Number)
  | unrepresentable
  | string
deriving DecidableEq, Repr

def isNullWord (text : String) : Bool :=
  text = "null" || text = "Null" || text = "NULL" || text = "~"

def boolWord? (text : String) : Option Bool :=
  if text = "true" || text = "True" || text = "TRUE" then some true
  else if text = "false" || text = "False" || text = "FALSE" then some false
  else none

/-! ## Numbers -/

/-- A text of digits that is no number: it has more than one digit and the first
is zero. -/
def isPaddedNumeral (text : List Char) : Bool :=
  match (Double.splitSign text).2 with
  | '0' :: rest => !rest.isEmpty && rest.all Char.isDigit
  | _ => false

def digitValue? (base : Nat) (c : Char) : Option Nat :=
  let value :=
    if c.isDigit then some (c.toNat - '0'.toNat)
    else if 'a' ≤ c && c ≤ 'z' then some (c.toNat - 'a'.toNat + 10)
    else if 'A' ≤ c && c ≤ 'Z' then some (c.toNat - 'A'.toNat + 10)
    else none
  value.bind fun value => if value < base then some value else none

/-- The number that digits write in a base, if they are digits of it. -/
def ofDigits? (base : Nat) (digits : List Char) : Option Nat :=
  if digits.isEmpty then none
  else
    digits.foldlM (fun n digit => (digitValue? base digit).map (base * n + ·)) 0

/-- The digits behind a mark for the base, and the base. -/
def splitBase : List Char → Nat × List Char
  | '0' :: 'x' :: rest => (16, rest)
  | '0' :: 'o' :: rest => (8, rest)
  | '0' :: 'b' :: rest => (2, rest)
  | rest => (10, rest)

/-- The integer that a text writes, of any size. -/
def integer? (text : List Char) : Option Int :=
  let (negative, unsigned) := Double.splitSign text
  let (base, digits) := splitBase unsigned
  if base = 10 && isPaddedNumeral text then none
  else (ofDigits? base digits).map fun n => if negative then -(n : Int) else n

/-- The floating-point number that a text writes; one out of range is none. -/
def real? (text : List Char) : Option Double :=
  let (signed, unsigned) := match text with
    | '+' :: rest => (true, rest)
    | rest => (false, rest)
  let word := String.ofList unsigned
  if word = ".inf" || word = ".Inf" || word = ".INF" then some (.infinite false)
  else if !signed && (word = "-.inf" || word = "-.Inf" || word = "-.INF") then
    some (.infinite true)
  else if !signed && (word = ".nan" || word = ".NaN" || word = ".NAN") then
    some .nan
  else if signed &&
      (unsigned.head? = some '+' || unsigned.head? = some '-') then
    none
  else
    match Double.ofText? unsigned with
    | some value => if value.isFinite then some value else none
    | none => none

/-- Whether an integer fits into 128 bits, with or without a sign. -/
def isLong (n : Int) : Bool :=
  -(Nat.pow 2 127 : Nat) ≤ n && n < (Nat.pow 2 128 : Nat)

/-- What a plain scalar stands for. -/
def Plain.ofText (text : String) : Plain :=
  let chars := text.toList
  if text.isEmpty || isNullWord text then .null
  else
    match boolWord? text with
    | some value => .bool value
    | none =>
      let asReal := if isPaddedNumeral chars then none else real? chars
      let otherwise := match asReal with
        | some value => Plain.number (.real value)
        | none => .string
      match integer? chars with
      | some n =>
        if Number.leastSigned ≤ n && n ≤ Number.greatestUnsigned then
          .number (.integer n)
        else if isLong n then .unrepresentable
        else otherwise
      | none => otherwise

end ConfigTree.Yaml
