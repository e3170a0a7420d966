/-!
# JSON texts

`Syntax` is what a JSON text says before numbers and escapes are given a
meaning: a part of a text that nobody asks for only has to be well formed, so a
number out of range or half of a surrogate pair does no harm there.
-/

namespace ConfigTree.Json

/-- One character of a string: itself, or a UTF-16 unit given by its number. -/
inductive Piece where
  | char (c : Char)
  | unit (value : Nat)
deriving DecidableEq, Repr

/-- The parts of a number; an absent exponent is distinct from an exponent of
zero. -/
structure Numeral where
  negative : Bool
  whole : List Char
  fraction : List Char
  exponent : Option (Bool × List Char)
deriving DecidableEq, Repr

inductive Syntax where
  | null
  | bool (value : Bool)
  | number (numeral : Numeral)
  | string (pieces : List Piece)
  | array (items : List Syntax)
  | object (members : List (List Piece × Syntax))
deriving Inhabited

def isSpace (c : Char) : Bool :=
  c = ' ' || c = '\n' || c = '\t' || c = '\r'

def skipSpace (text : List Char) : List Char :=
  text.dropWhile isSpace

def hexValue? (c : Char) : Option Nat :=
  if '0' ≤ c && c ≤ '9' then some (c.toNat - '0'.toNat)
  else if 'a' ≤ c && c ≤ 'f' then some (c.toNat - 'a'.toNat + 10)
  else if 'A' ≤ c && c ≤ 'F' then some (c.toNat - 'A'.toNat + 10)
  else none

/-- The character that a short escape stands for. -/
def shortEscape? : Char → Option Char
  | '"' => some '"'
  | '\\' => some '\\'
  | '/' => some '/'
  | 'b' => some '\x08'
  | 'f' => some '\x0c'
  | 'n' => some '\n'
  | 'r' => some '\r'
  | 't' => some '\t'
  | _ => none

/-- The pieces of a string up to its closing quote, and what follows the
quote. -/
def readPieces : List Char → Option (List Piece × List Char)
  | '"' :: rest => some ([], rest)
  | '\\' :: 'u' :: a :: b :: c :: d :: rest =>
    match hexValue? a, hexValue? b, hexValue? c, hexValue? d,
        readPieces rest with
    | some a, some b, some c, some d, some (pieces, rest) =>
      some (.unit (((a * 16 + b) * 16 + c) * 16 + d) :: pieces, rest)
    | _, _, _, _, _ => none
  | '\\' :: c :: rest =>
    match shortEscape? c, readPieces rest with
    | some c, some (pieces, rest) => some (.char c :: pieces, rest)
    | _, _ => none
  | c :: rest =>
    if c.toNat < 0x20 || c = '\\' then none
    else (readPieces rest).map fun (pieces, rest) => (.char c :: pieces, rest)
  | [] => none

/-- The fraction of a number, if a point starts one. -/
def readFraction : List Char → Option (List Char × List Char)
  | '.' :: rest =>
    let digits := rest.takeWhile Char.isDigit
    if digits.isEmpty then none else some (digits, rest.dropWhile Char.isDigit)
  | rest => some ([], rest)

/-- The exponent of a number, if there is one. -/
def readExponent : List Char → Option (Option (Bool × List Char) × List Char)
  | c :: rest =>
    if c = 'e' || c = 'E' then
      let (negative, rest) := match rest with
        | '-' :: rest => (true, rest)
        | '+' :: rest => (false, rest)
        | rest => (false, rest)
      let digits := rest.takeWhile Char.isDigit
      if digits.isEmpty then
        none
      else
        some (some (negative, digits), rest.dropWhile Char.isDigit)
    else some (none, c :: rest)
  | [] => some (none, [])

/-- A number without its sign; its first digit is zero only if it is the only
one before the point. -/
def readUnsigned
    (negative : Bool) (text : List Char) :
    Option (Numeral × List Char) := do
  let whole := text.takeWhile Char.isDigit
  if whole.isEmpty || (whole.head? = some '0' && whole.length ≠ 1) then none
  else
    let (fraction, rest) ← readFraction (text.dropWhile Char.isDigit)
    let (exponent, rest) ← readExponent rest
    some (⟨negative, whole, fraction, exponent⟩, rest)

def readNumeral : List Char → Option (Numeral × List Char)
  | '-' :: rest => readUnsigned true rest
  | rest => readUnsigned false rest

mutual

/-- One value and what follows it. `depth` bounds the steps: each takes a
character or enters a list. -/
def readValue (depth : Nat) (text : List Char) : Option (Syntax × List Char) :=
  match depth with
  | 0 => none
  | depth + 1 =>
    match text with
    | 'n' :: 'u' :: 'l' :: 'l' :: rest => some (.null, rest)
    | 't' :: 'r' :: 'u' :: 'e' :: rest => some (.bool true, rest)
    | 'f' :: 'a' :: 'l' :: 's' :: 'e' :: rest => some (.bool false, rest)
    | '"' :: rest =>
      (readPieces rest).map fun (pieces, rest) => (.string pieces, rest)
    | '[' :: rest =>
      match skipSpace rest with
      | ']' :: rest => some (.array [], rest)
      | rest =>
          (readItems depth rest).map fun (items, rest) => (.array items, rest)
    | '\x7b' :: rest =>
      match skipSpace rest with
      | '\x7d' :: rest => some (.object [], rest)
      | rest =>
          (readMembers depth rest).map fun (members, rest) =>
            (.object members, rest)
    | text =>
        (readNumeral text).map fun (numeral, rest) => (.number numeral, rest)

/-- The items of an array from the first one on, up to the closing bracket. -/
def readItems
    (depth : Nat) (text : List Char) :
    Option (List Syntax × List Char) :=
  match depth with
  | 0 => none
  | depth + 1 =>
    match readValue depth text with
    | none => none
    | some (item, rest) =>
      match skipSpace rest with
      | ',' :: rest =>
          (readItems depth (skipSpace rest)).map fun (items, rest) =>
            (item :: items, rest)
      | ']' :: rest => some ([item], rest)
      | _ => none

/-- The members of an object from the first one on, up to the closing brace. -/
def readMembers
    (depth : Nat) (text : List Char) :
    Option (List (List Piece × Syntax) × List Char) :=
  match depth with
  | 0 => none
  | depth + 1 =>
    match text with
    | '"' :: rest =>
      match readPieces rest with
      | none => none
      | some (key, rest) =>
        match skipSpace rest with
        | ':' :: rest =>
          match readValue depth (skipSpace rest) with
          | none => none
          | some (value, rest) =>
            match skipSpace rest with
            | ',' :: rest =>
              (readMembers depth (skipSpace rest)).map fun (members, rest) =>
                ((key, value) :: members, rest)
            | '\x7d' :: rest => some ([(key, value)], rest)
            | _ => none
        | _ => none
    | _ => none

end

/-- The one value that a text holds, with nothing but space around it. -/
def Syntax.ofText? (text : String) : Option Syntax :=
  let chars := skipSpace text.toList
  match readValue (2 * chars.length + 2) chars with
  | some (value, rest) => if (skipSpace rest).isEmpty then some value else none
  | none => none

end ConfigTree.Json
