import ConfigTree.Double.Reading
import ConfigTree.Number
import ConfigTree.Toml.Datetime

/-!
# TOML texts

A text is a list of statements: a key with its value, or the header of a table.
Keys are dotted paths; which tables they open is decided afterwards.
-/

namespace ConfigTree.Toml

inductive Syntax where
  | string (value : String)
  | integer (value : Int)
  | real (value : Double)
  | bool (value : Bool)
  | datetime (value : Datetime)
  | array (items : List Syntax)
  | inline (members : List (List String × Syntax))
deriving Inhabited

inductive Statement where
  | pair (path : List String) (value : Syntax)
  | table (path : List String)
  | element (path : List String)

/-! ## Characters -/

def isBlankChar (c : Char) : Bool :=
  c = ' ' || c = '\t'

def skipBlanks (text : List Char) : List Char :=
  text.dropWhile isBlankChar

/-- A character that may stand in a comment. -/
def isVisible (c : Char) : Bool :=
  c = '\t' || (0x20 ≤ c.toNat && c.toNat ≠ 0x7f)

def isKeyChar (c : Char) : Bool :=
  c.isAlphanum || c = '-' || c = '_'

def isHexDigit (c : Char) : Bool :=
  c.isDigit || ('a' ≤ c && c ≤ 'f') || ('A' ≤ c && c ≤ 'F')

def hexValue (c : Char) : Nat :=
  if c.isDigit then c.toNat - '0'.toNat else c.toLower.toNat - 'a'.toNat + 10

/-- What follows the line break that a text starts with. -/
def lineBreak? : List Char → Option (List Char)
  | '\n' :: rest => some rest
  | '\r' :: '\n' :: rest => some rest
  | _ => none

/-- The text behind a comment, if it starts with one. -/
def skipComment : List Char → List Char
  | '#' :: rest => rest.dropWhile isVisible
  | rest => rest

/-- What follows the rest of a line, which holds at most a comment. -/
def endOfLine? (text : List Char) : Option (List Char) :=
  match skipComment (skipBlanks text) with
  | [] => some []
  | rest => lineBreak? rest

/-- The text behind blanks, line breaks and comments that end in a line
break. -/
def skipLines (steps : Nat) (text : List Char) : List Char :=
  match steps with
  | 0 => text
  | steps + 1 =>
    let text := skipBlanks text
    match lineBreak? (skipComment text) with
    | some rest => skipLines steps rest
    | none => text

/-! ## Strings -/

/-- The character that an escape stands for, and what follows it. -/
def readEscape : List Char → Option (Char × List Char)
  | 'b' :: rest => some ('\x08', rest)
  | 't' :: rest => some ('\t', rest)
  | 'n' :: rest => some ('\n', rest)
  | 'f' :: rest => some ('\x0c', rest)
  | 'r' :: rest => some ('\r', rest)
  | '"' :: rest => some ('"', rest)
  | '\\' :: rest => some ('\\', rest)
  | 'u' :: rest => numbered 4 rest
  | 'U' :: rest => numbered 8 rest
  | _ => none
where
  numbered (count : Nat) (text : List Char) : Option (Char × List Char) :=
    let digits := text.take count
    let value := digits.foldl (fun n digit => 16 * n + hexValue digit) 0
    if digits.length = count && digits.all isHexDigit && value.isValidChar then
      some (Char.ofNat value, text.drop count)
    else none

/-- A string in double quotes, from behind the opening one. -/
def readBasic
    (steps : Nat) (text : List Char) :
    Option (List Char × List Char) :=
  match steps with
  | 0 => none
  | steps + 1 =>
    match text with
    | '"' :: rest => some ([], rest)
    | '\\' :: rest => do
      let (c, rest) ← readEscape rest
      let (value, rest) ← readBasic steps rest
      some (c :: value, rest)
    | c :: rest =>
      if isVisible c then
        (readBasic steps rest).map fun (value, rest) => (c :: value, rest)
      else
        none
    | [] => none

/-- A string in single quotes, from behind the opening one. -/
def readLiteral : List Char → Option (List Char × List Char)
  | '\'' :: rest => some ([], rest)
  | c :: rest =>
      if isVisible c then
        (readLiteral rest).map fun (value, rest) => (c :: value, rest)
      else
        none
  | [] => none

/-- The quotes that a text starts with, at most five, if they close a string of
several lines: all but the last three belong to it. -/
def closing?
    (quote : Char) (text : List Char) :
    Option (List Char × List Char) :=
  let count := min (text.takeWhile (· = quote)).length 5
  if 3 ≤ count then
    some (List.replicate (count - 3) quote, text.drop count)
  else
    none

def skipBlankLines : List Char → List Char
  | ' ' :: rest => skipBlankLines rest
  | '\t' :: rest => skipBlankLines rest
  | '\n' :: rest => skipBlankLines rest
  | '\r' :: '\n' :: rest => skipBlankLines rest
  | rest => rest

/-- The text behind an escaped line break: blanks and line breaks are left
out. -/
def foldedLine? (text : List Char) : Option (List Char) :=
  (lineBreak? (skipBlanks text)).map skipBlankLines

/-- A string of several lines in double quotes, from behind the opening ones. -/
def readBasicLines
    (steps : Nat) (text : List Char) :
    Option (List Char × List Char) :=
  match steps with
  | 0 => none
  | steps + 1 =>
    match closing? '"' text with
    | some (value, rest) => some (value, rest)
    | none =>
      match text with
      | '\\' :: rest =>
        match foldedLine? rest with
        | some rest => readBasicLines steps rest
        | none => do
          let (c, rest) ← readEscape rest
          let (value, rest) ← readBasicLines steps rest
          some (c :: value, rest)
      | '\r' :: '\n' :: rest =>
          (readBasicLines steps rest).map fun (value, rest) =>
            ('\n' :: value, rest)
      | c :: rest =>
        if isVisible c || c = '\n' then
          (readBasicLines steps rest).map fun (value, rest) =>
            (c :: value, rest)
        else none
      | [] => none

/-- A string of several lines in single quotes, from behind the opening ones. -/
def readLiteralLines
    (steps : Nat) (text : List Char) :
    Option (List Char × List Char) :=
  match steps with
  | 0 => none
  | steps + 1 =>
    match closing? '\'' text with
    | some (value, rest) => some (value, rest)
    | none =>
      match text with
      | '\r' :: '\n' :: rest =>
          (readLiteralLines steps rest).map fun (value, rest) =>
            ('\n' :: value, rest)
      | c :: rest =>
        if isVisible c || c = '\n' then
          (readLiteralLines steps rest).map fun (value, rest) =>
            (c :: value, rest)
        else none
      | [] => none

/-- A line break right behind the opening quotes is no part of the string. -/
def skipFirstBreak (text : List Char) : List Char :=
  (lineBreak? text).getD text

def readString (text : List Char) : Option (String × List Char) :=
  let steps := text.length + 1
  let found := match text with
    | '"' :: '"' :: '"' :: rest => readBasicLines steps (skipFirstBreak rest)
    | '"' :: rest => readBasic steps rest
    | '\'' :: '\'' :: '\'' :: rest =>
        readLiteralLines steps (skipFirstBreak rest)
    | '\'' :: rest => readLiteral rest
    | _ => none
  found.map fun (value, rest) => (String.ofList value, rest)

/-! ## Keys -/

def readSimpleKey (text : List Char) : Option (String × List Char) :=
  match text with
  | '"' :: rest =>
    (readBasic (text.length + 1) rest).map fun (value, rest) =>
      (String.ofList value, rest)
  | '\'' :: rest =>
      (readLiteral rest).map fun (value, rest) => (String.ofList value, rest)
  | text =>
    let name := text.takeWhile isKeyChar
    if name.isEmpty then
      none
    else
      some (String.ofList name, text.dropWhile isKeyChar)

/-- A dotted key, with blanks allowed around it and around its dots. -/
def readPath
    (steps : Nat) (text : List Char) :
    Option (List String × List Char) :=
  match steps with
  | 0 => none
  | steps + 1 => do
    let (name, rest) ← readSimpleKey (skipBlanks text)
    match skipBlanks rest with
    | '.' :: rest =>
        (readPath steps rest).map fun (path, rest) => (name :: path, rest)
    | rest => some ([name], rest)

/-- The paths of keys, and the values within values, stay below this depth. -/
def depthLimit : Nat := 80

def readKey (text : List Char) : Option (List String × List Char) := do
  let (path, rest) ← readPath (text.length + 1) text
  if path.length < depthLimit then some (path, rest) else none

/-! ## Numbers -/

/-- Digits with single underscores between them: the digits alone, and what
follows. -/
def readGroups
    (accepts : Char → Bool) (text : List Char) :
    Option (List Char × List Char) :=
  go (text.length + 1) text
where
  go (steps : Nat) (text : List Char) : Option (List Char × List Char) :=
    let digits := text.takeWhile accepts
    match steps, text.dropWhile accepts with
    | _, [] => if digits.isEmpty then none else some (digits, [])
    | 0, _ => none
    | steps + 1, c :: rest =>
      if digits.isEmpty then none
      else if c = '_' then
        (go steps rest).map fun (more, rest) => (digits ++ more, rest)
      else some (digits, c :: rest)

/-- A whole number: it starts with a zero only if it is zero. -/
def readWhole : List Char → Option (List Char × List Char)
  | '0' :: rest => some (['0'], rest)
  | rest => readGroups Char.isDigit rest

/-- A fraction or an exponent, or both, behind the whole part of a
floating-point number. -/
def readTail (text : List Char) : Option (List Char × Int × List Char) := do
  let (fraction, rest) ← match text with
    | '.' :: rest => readGroups Char.isDigit rest
    | rest => some ([], rest)
  match rest with
  | c :: after =>
    if c = 'e' || c = 'E' then
      let (negative, digits) := Double.splitSign after
      let (digits, rest) ← readGroups Char.isDigit digits
      let n : Int := Double.digitsValue digits
      some (fraction, if negative then -n else n, rest)
    else if fraction.isEmpty then none
    else some (fraction, 0, rest)
  | [] => if fraction.isEmpty then none else some (fraction, 0, [])

/-- A floating-point number; one that is too great is refused unless it is
negative. -/
def readReal (text : List Char) : Option (Double × List Char) := do
  let (negative, unsigned) := Double.splitSign text
  match unsigned with
  | 'i' :: 'n' :: 'f' :: rest => some (.infinite negative, rest)
  | 'n' :: 'a' :: 'n' :: rest => some (.nan, rest)
  | unsigned =>
    let (whole, rest) ← readWhole unsigned
    let (fraction, exponent, rest) ← readTail rest
    let value :=
      Double.ofDecimal negative (Double.digitsValue (whole ++ fraction))
        (exponent - fraction.length)
    if value = .infinite false then none else some (value, rest)

def inRange (n : Int) : Bool :=
  Number.leastSigned ≤ n && n ≤ Number.greatestSigned

/-- A number with a base before its digits. -/
def readBased (base : Nat) (text : List Char) : Option (Int × List Char) := do
  let (digits, rest) ←
    readGroups (fun c => isHexDigit c && hexValue c < base) text
  let n : Int := digits.foldl (fun n digit => base * n + hexValue digit) 0
  if inRange n then some (n, rest) else none

def readInteger (text : List Char) : Option (Int × List Char) :=
  match text with
  | '0' :: 'x' :: rest => readBased 16 rest
  | '0' :: 'o' :: rest => readBased 8 rest
  | '0' :: 'b' :: rest => readBased 2 rest
  | text => do
    let (negative, unsigned) := Double.splitSign text
    let (digits, rest) ← readWhole unsigned
    let n : Int := Double.digitsValue digits
    let n := if negative then -n else n
    if inRange n then some (n, rest) else none

/-- A number or a date, whichever the text starts with. -/
def readNumeric (text : List Char) : Option (Syntax × List Char) :=
  match readDatetime text with
  | some (value, rest) => some (.datetime value, rest)
  | none =>
    match readReal text with
    | some (value, rest) => some (.real value, rest)
    | none => (readInteger text).map fun (value, rest) => (.integer value, rest)

/-! ## Values -/

mutual

/-- One value. `depth` counts the arrays and inline tables around it. -/
def readValue
    (steps depth : Nat) (text : List Char) :
    Option (Syntax × List Char) :=
  match steps with
  | 0 => none
  | steps + 1 =>
    match text with
    | '"' :: _ | '\'' :: _ =>
      (readString text).map fun (value, rest) => (.string value, rest)
    | 't' :: 'r' :: 'u' :: 'e' :: rest => some (.bool true, rest)
    | 'f' :: 'a' :: 'l' :: 's' :: 'e' :: rest => some (.bool false, rest)
    | '[' :: rest =>
      if depth + 1 < depthLimit then
        (readItems steps (depth + 1) rest).map fun (items, rest) =>
          (.array items, rest)
      else none
    | '\x7b' :: rest =>
      if depth + 1 < depthLimit then
        match skipBlanks rest with
        | '\x7d' :: rest => some (.inline [], rest)
        | rest =>
            (readMembers steps (depth + 1) rest).map fun (members, rest) =>
              (.inline members, rest)
      else none
    | text => readNumeric text

/-- The items of an array that are still to come, up to the closing bracket. -/
def readItems
    (steps depth : Nat) (text : List Char) :
    Option (List Syntax × List Char) :=
  match steps with
  | 0 => none
  | steps + 1 =>
    match skipLines text.length text with
    | ']' :: rest => some ([], rest)
    | text => do
      let (item, rest) ← readValue steps depth text
      match skipLines rest.length rest with
      | ',' :: rest =>
          (readItems steps depth rest).map fun (items, rest) =>
            (item :: items, rest)
      | ']' :: rest => some ([item], rest)
      | _ => none

/-- The members of an inline table from the next one on, up to the closing
brace. -/
def readMembers
    (steps depth : Nat) (text : List Char) :
    Option (List (List String × Syntax) × List Char) :=
  match steps with
  | 0 => none
  | steps + 1 => do
    let (path, rest) ← readKey text
    let rest ← readMark '=' rest
    let (value, rest) ← readValue steps depth (skipBlanks rest)
    match skipBlanks rest with
    | ',' :: rest =>
        (readMembers steps depth rest).map fun (members, rest) =>
          ((path, value) :: members, rest)
    | '\x7d' :: rest => some ([(path, value)], rest)
    | _ => none

end

/-! ## Statements -/

def readPair (text : List Char) : Option (Statement × List Char) := do
  let (path, rest) ← readKey text
  let rest ← readMark '=' rest
  let (value, rest) ← readValue (2 * rest.length + 2) 0 (skipBlanks rest)
  some (.pair path value, rest)

def readHeader (text : List Char) : Option (Statement × List Char) :=
  match text with
  | '[' :: '[' :: rest => do
    let (path, rest) ← readKey rest
    match rest with
    | ']' :: ']' :: rest => some (.element path, rest)
    | _ => none
  | '[' :: rest => do
    let (path, rest) ← readKey rest
    let rest ← readMark ']' rest
    some (.table path, rest)
  | _ => none

/-- The statements of a text, one to a line. -/
def readStatements (steps : Nat) (text : List Char) : Option (List Statement) :=
  match steps with
  | 0 => none
  | steps + 1 =>
    match skipBlanks text with
    | [] => some []
    | '#' :: rest => (endOfLine? ('#' :: rest)).bind (readStatements steps)
    | '\n' :: rest => readStatements steps rest
    | '\r' :: '\n' :: rest => readStatements steps rest
    | text => do
      let (statement, rest) ← match text with
        | '[' :: _ => readHeader text
        | _ => readPair text
      let rest ← endOfLine? rest
      let statements ← readStatements steps rest
      some (statement :: statements)

/-- The statements of a text, which may start with a byte order mark. -/
def statements? (text : String) : Option (List Statement) :=
  let chars := match text.toList with
    | '\ufeff' :: rest => rest
    | chars => chars
  readStatements (chars.length + 1) chars

end ConfigTree.Toml
