import ConfigTree.Double.Reading
import ConfigTree.Json.Syntax
import ConfigTree.Number

/-!
# JSON values

A text's objects are read with their members in ascending order of names, each
name once; of members with one name the last counts. `Value.sorted` brings any
value into that form.
-/

namespace ConfigTree.Json

inductive Value where
  | null
  | bool (value : Bool)
  | number (value : Number)
  | string (value : String)
  | array (items : List Value)
  | object (members : List (String × Value))
deriving Inhabited

/-! ## Strings -/

/-- The characters that the pieces spell. A unit of the first half of a pair has
to be followed by one of the second half, and the latter stands nowhere else. -/
def spell : List Piece → Option (List Char)
  | [] => some []
  | .char c :: rest => (spell rest).map (c :: ·)
  | .unit high :: .unit low :: rest =>
    if 0xd800 ≤ high && high < 0xdc00 then
      if 0xdc00 ≤ low && low < 0xe000 then
        (spell rest).map
          (Char.ofNat (0x10000 + (high - 0xd800) * 0x400 + (low - 0xdc00)) :: ·)
      else none
    else if 0xdc00 ≤ high && high < 0xe000 then none
    else (spell (.unit low :: rest)).map (Char.ofNat high :: ·)
  | .unit value :: rest =>
    if 0xd800 ≤ value && value < 0xe000 then none
    else (spell rest).map (Char.ofNat value :: ·)

/-- The string that the pieces spell. -/
def stringOf (pieces : List Piece) : Option String :=
  (spell pieces).map String.ofList

/-! ## Numbers -/

/-- Digits gathered while they fit into 64 bits, and the count of whole digits
that did not. -/
structure Gathered where
  significand : Nat
  left : Nat

def Gathered.whole (digits : List Char) : Gathered :=
  digits.foldl (fun gathered digit =>
    let next := 10 * gathered.significand + (digit.toNat - '0'.toNat)
    if gathered.left = 0 && next ≤ Number.greatestUnsigned then ⟨next, 0⟩
    else ⟨gathered.significand, gathered.left + 1⟩) ⟨0, 0⟩

/-- The significand after the digits of a fraction and how many of them it took:
it takes them up to the first that does not fit. -/
def Gathered.fraction (significand : Nat) : List Char → Nat × Nat
  | [] => (significand, 0)
  | digit :: rest =>
    let next := 10 * significand + (digit.toNat - '0'.toNat)
    if next ≤ Number.greatestUnsigned then
      let (significand, taken) := Gathered.fraction next rest
      (significand, taken + 1)
    else (significand, 0)

/-- The greatest power of ten that a 64-bit number can be scaled by in one
step. -/
def greatestScale : Nat := 308

/-- A power of ten as a 64-bit number. -/
def scale (exponent : Nat) : Double :=
  Double.ofNat (Nat.pow 10 exponent)

/-- The number scaled down, in steps where one does not reach. -/
def scaleDown (value : Double) (exponent : Nat) : Double :=
  if exponent ≤ greatestScale then value.div (scale exponent)
  else if value = Double.zero false then value
  else scaleDown (value.div (scale greatestScale)) (exponent - greatestScale)
termination_by exponent
decreasing_by simp only [greatestScale] at *; omega

/-- `significand * 10 ^ exponent` as the product or quotient of two rounded
numbers; none if it is out of range. -/
def scaled? (significand : Nat) (exponent : Int) : Option Double :=
  let value := Double.ofNat significand
  if exponent < 0 then some (scaleDown value (-exponent).toNat)
  else if exponent ≤ greatestScale then
    let product := value.mul (scale exponent.toNat)
    if product.isFinite then some product else none
  else if significand = 0 then some value
  else none

/-- The exponent as written, capped: beyond the cap nothing but its sign
matters. -/
def exponentValue : Option (Bool × List Char) → Int
  | none => 0
  | some (negative, digits) =>
    let value := Double.digitsValue digits
    let n : Int := if value < Nat.pow 2 31 then value else (Nat.pow 2 31 : Nat)
    if negative then -n else n

/-- The number that a numeral stands for. Without fraction and exponent it is an
integer if it fits into 64 bits, with the one exception of a negative zero. -/
def numberOf (numeral : Numeral) : Option Number :=
  let whole := Gathered.whole numeral.whole
  if numeral.fraction.isEmpty && numeral.exponent.isNone && whole.left = 0 &&
      (!numeral.negative ||
        (0 < whole.significand && whole.significand ≤
          Number.greatestSigned + 1)) then
    let n : Int := whole.significand
    some (.integer (if numeral.negative then -n else n))
  else
    let (significand, taken) :=
      Gathered.fraction whole.significand numeral.fraction
    let exponent := exponentValue numeral.exponent + whole.left - taken
    (scaled? significand exponent).map fun value =>
      .real (if numeral.negative then value.negate else value)

/-! ## Objects -/

/-- Inserts a member in order, in place of one of the same name. -/
def insertMember
    (name : String) (value : Value) :
    List (String × Value) → List (String × Value)
  | [] => [(name, value)]
  | (other, old) :: rest =>
    if name < other then (name, value) :: (other, old) :: rest
    else if name = other then (name, value) :: rest
    else (other, old) :: insertMember name value rest

/-- The members in ascending order of names, the last of each name. -/
def sortMembers (members : List (String × Value)) : List (String × Value) :=
  members.foldl (fun sorted member => insertMember member.1 member.2 sorted) []

mutual

/-- The value with the members of all its objects in order. -/
def Value.sorted : Value → Value
  | .array items => .array (sortedItems items)
  | .object members => .object (sortMembers (sortedMembers members))
  | value => value

def sortedItems : List Value → List Value
  | [] => []
  | item :: rest => item.sorted :: sortedItems rest

def sortedMembers : List (String × Value) → List (String × Value)
  | [] => []
  | (name, value) :: rest => (name, value.sorted) :: sortedMembers rest

end

/-! ## Meaning of a text -/

/-- How deep arrays and objects may be nested. -/
def deepest : Nat := 127

mutual

/-- The value of a text's syntax within a depth of nesting. -/
def ofSyntax (depth : Nat) : Syntax → Option Value
  | .null => some .null
  | .bool value => some (.bool value)
  | .number numeral => (numberOf numeral).map .number
  | .string pieces => (stringOf pieces).map .string
  | .array items => match depth with
    | 0 => none
    | depth + 1 => (ofItems depth items).map .array
  | .object members => match depth with
    | 0 => none
    | depth + 1 =>
        (ofMembers depth members).map fun members =>
          .object (sortMembers members)

def ofItems (depth : Nat) : List Syntax → Option (List Value)
  | [] => some []
  | item :: rest =>
    match ofSyntax depth item, ofItems depth rest with
    | some item, some rest => some (item :: rest)
    | _, _ => none

def ofMembers
    (depth : Nat) :
    List (List Piece × Syntax) → Option (List (String × Value))
  | [] => some []
  | (name, value) :: rest =>
    match stringOf name, ofSyntax depth value, ofMembers depth rest with
    | some name, some value, some rest => some ((name, value) :: rest)
    | _, _, _ => none

end

/-- The value that a JSON text holds. -/
def Value.ofText? (text : String) : Option Value :=
  (Syntax.ofText? text).bind (ofSyntax deepest)

end ConfigTree.Json
