import ConfigTree.Yaml.Cursor

/-!
# Scalars in a YAML text

How the characters of a scalar are gathered from its lines, in each of the
styles. Line breaks inside quoted and plain scalars are folded: one alone
becomes a blank, of several the first is dropped.
-/

namespace ConfigTree.Yaml

inductive Style where
  | plain
  | singleQuoted
  | doubleQuoted
  | literal
  | folded
deriving DecidableEq, Repr

/-! ## Gaps between words -/

/-- Blanks and breaks between two words of a scalar. -/
structure Gap where
  blanks : List Char
  firstBreak : List Char
  laterBreaks : List Char
  broken : Bool

namespace Gap

def empty : Gap :=
  ⟨[], [], [], false⟩

/-- A gap behind an escaped line break. -/
def escaped : Gap :=
  ⟨[], [], [], true⟩

/-- What the gap contributes to the scalar. -/
def text (gap : Gap) : List Char :=
  if gap.broken then
    if gap.firstBreak = ['\n'] then
      if gap.laterBreaks.isEmpty then [' '] else gap.laterBreaks
    else gap.firstBreak ++ gap.laterBreaks
  else gap.blanks

/-- Gathers a gap. In a line that the gap has reached, no tab may stand before
the column `indent`. -/
def gather
    (steps : Nat) (indent : Int) (gap : Gap) (c : Cursor) :
    Option (Gap × Cursor) :=
  match steps with
  | 0 => some (gap, c)
  | steps + 1 =>
    match c.rest with
    | b :: _ =>
      if isBlank b then
        if gap.broken then
          if (c.column : Int) < indent && b = '\t' then
            none
          else
            gather steps indent gap c.next
        else gather steps indent { gap with blanks := gap.blanks ++ [b] } c.next
      else if isBreak b then
        let (taken, after) := c.lineBreak
        if gap.broken then
          gather steps indent
            { gap with laterBreaks := gap.laterBreaks ++ taken } after
        else gather steps indent ⟨[], taken, [], true⟩ after
      else some (gap, c)
    | [] => some (gap, c)

end Gap

/-! ## Quoted scalars -/

def hexValue? (c : Char) : Option Nat :=
  if c.isDigit then some (c.toNat - '0'.toNat)
  else if 'a' ≤ c && c ≤ 'f' then some (c.toNat - 'a'.toNat + 10)
  else if 'A' ≤ c && c ≤ 'F' then some (c.toNat - 'A'.toNat + 10)
  else none

/-- The character with the number that the next digits write. -/
def numbered (count : Nat) (c : Cursor) : Option (Char × Cursor) := do
  let digits := c.rest.take count
  let values ← digits.mapM hexValue?
  let value := values.foldl (fun n digit => 16 * n + digit) 0
  if digits.length = count && value.isValidChar then
    some (Char.ofNat value, c.skip count)
  else
    none

/-- The character that an escape stands for, from behind the backslash. -/
def readEscape (c : Cursor) : Option (Char × Cursor) :=
  match c.rest with
  | '0' :: _ => some ('\x00', c.next)
  | 'a' :: _ => some ('\x07', c.next)
  | 'b' :: _ => some ('\x08', c.next)
  | 't' :: _ => some ('\t', c.next)
  | '\t' :: _ => some ('\t', c.next)
  | 'n' :: _ => some ('\n', c.next)
  | 'v' :: _ => some ('\x0b', c.next)
  | 'f' :: _ => some ('\x0c', c.next)
  | 'r' :: _ => some ('\r', c.next)
  | 'e' :: _ => some ('\x1b', c.next)
  | ' ' :: _ => some (' ', c.next)
  | '"' :: _ => some ('"', c.next)
  | '/' :: _ => some ('/', c.next)
  | '\\' :: _ => some ('\\', c.next)
  | 'N' :: _ => some ('\x85', c.next)
  | '_' :: _ => some ('\xa0', c.next)
  | 'L' :: _ => some ('\u2028', c.next)
  | 'P' :: _ => some ('\u2029', c.next)
  | 'x' :: _ => numbered 2 c.next
  | 'u' :: _ => numbered 4 c.next
  | 'U' :: _ => numbered 8 c.next
  | _ => none

/-- The rest of a quoted scalar, whose characters so far are given last
first. -/
def readQuoted
    (steps : Nat) (single : Bool) (text : List Char) (c : Cursor) :
    Option (List Char × Cursor) :=
  match steps with
  | 0 => none
  | steps + 1 =>
    if c.atDocumentMark then none
    else
      match c.rest with
      | [] => none
      | '\'' :: '\'' :: _ =>
        if single then readQuoted steps single ('\'' :: text) (c.skip 2)
        else readQuoted steps single ('\'' :: text) c.next
      | '\'' :: _ =>
        if single then some (text.reverse, c.next)
        else readQuoted steps single ('\'' :: text) c.next
      | '"' :: _ =>
        if single then readQuoted steps single ('"' :: text) c.next
        else some (text.reverse, c.next)
      | '\\' :: after =>
        if single then readQuoted steps single ('\\' :: text) c.next
        else if c.next.atBreak then do
          let (gap, c) ←
            Gap.gather after.length (-1) .escaped c.next.lineBreak.2
          readQuoted steps single (gap.text.reverse ++ text) c
        else do
          let (e, c) ← readEscape c.next
          readQuoted steps single (e :: text) c
      | b :: after =>
        if isBlank b || isBreak b then do
          let (gap, c) ← Gap.gather (after.length + 1) (-1) .empty c
          readQuoted steps single (gap.text.reverse ++ text) c
        else readQuoted steps single (b :: text) c.next

/-! ## Plain scalars -/

def isFlowMark (c : Char) : Bool :=
  c = ',' || c = '[' || c = ']' || c = '\x7b' || c = '\x7d'

/-- The text of a plain scalar, the cursor behind it and the gap that follows,
and whether that gap has a break. -/
structure PlainText where
  text : List Char
  after : Cursor
  broken : Bool

/-- The rest of a plain scalar. `gap` lies before the cursor and belongs to the
scalar only if a word follows. -/
def readPlain
    (steps : Nat)
    (inFlow : Bool)
    (indent : Int)
    (text : List Char)
    (gap : Gap)
    (c : Cursor) :
    Option PlainText :=
  let done : PlainText := ⟨text.reverse, c, gap.broken⟩
  match steps with
  | 0 => some done
  | steps + 1 =>
    match c.rest with
    | [] => some done
    | b :: after =>
      if isBlank b || isBreak b then do
        let (gap, c) ← Gap.gather (after.length + 1) indent gap c
        let done : PlainText := ⟨text.reverse, c, gap.broken⟩
        match c.rest with
        | '#' :: _ => some done
        | _ =>
          if (!inFlow && (c.column : Int) < indent) || c.atDocumentMark then
            some done
          else readPlain steps inFlow indent text gap c
      else if inFlow && b = ':' && (match after with
          | d :: _ => isFlowMark d || d = '?'
          | [] => false) then
        none
      else if (b = ':' && startsBlank after) || (inFlow && isFlowMark b) then
        some done
      else
        readPlain steps inFlow indent (b :: (gap.text.reverse ++ text)) .empty
          c.next

/-! ## Block scalars -/

/-- What becomes of the breaks at the end of a block scalar. -/
inductive Chomping where
  | strip
  | clip
  | keep
deriving DecidableEq

def readChomping (c : Cursor) : Option Chomping × Cursor :=
  match c.rest with
  | '+' :: _ => (some .keep, c.next)
  | '-' :: _ => (some .strip, c.next)
  | _ => (none, c)

/-- The indentation that a header states, zero if it states none. -/
def readIndentation (c : Cursor) : Option (Nat × Cursor) :=
  match c.rest with
  | '0' :: _ => none
  | d :: _ =>
      if d.isDigit then some (d.toNat - '0'.toNat, c.next) else some (0, c)
  | [] => some (0, c)

/-- The chomping and the indentation of a header, in either order, and the
cursor in the line behind it. -/
def readBlockHeader (c : Cursor) : Option (Chomping × Nat × Cursor) := do
  let (early, c) := readChomping c
  let (indentation, c) ← readIndentation c
  let (late, c) :=
    if early.isNone && indentation ≠ 0 then readChomping c else (none, c)
  let chomping := (early.orElse fun _ => late).getD .clip
  let c ← c.restOfLine?
  some (chomping, indentation, c)

/-- The breaks of empty lines, and the greatest column met before a line that is
not empty. An indentation of zero is still to be found out. -/
def readEmptyLines
    (steps : Nat) (indent greatest : Nat) (breaks : List Char) (c : Cursor) :
    Option (List Char × Nat × Cursor) :=
  match steps with
  | 0 => some (breaks, greatest, c)
  | steps + 1 =>
    let blanks := (c.rest.takeWhile (· = ' ')).length
    let c :=
      c.skip (if indent = 0 then blanks else min blanks (indent - c.column))
    let greatest := max greatest c.column
    match c.rest with
    | '\t' :: _ =>
        if indent = 0 || c.column < indent then
          none
        else
          some (breaks, greatest, c)
    | b :: _ =>
      if isBreak b then
        let (taken, after) := c.lineBreak
        readEmptyLines steps indent greatest (breaks ++ taken) after
      else some (breaks, greatest, c)
    | [] => some (breaks, greatest, c)

/-- The lines of a block scalar after what is gathered, last character first. -/
def readBlockLines
    (steps : Nat)
    (literal : Bool)
    (chomping : Chomping)
    (indent : Nat)
    (text lastBreak : List Char)
    (emptyBreaks : List Char) (lastBlank : Bool) (c : Cursor) :
    Option (List Char × Cursor) :=
  let finished :=
    let tail :=
      (if chomping = .strip then [] else lastBreak) ++
        (if chomping = .keep then emptyBreaks else [])
    some (text.reverse ++ tail, c)
  match steps with
  | 0 => finished
  | steps + 1 =>
    match c.rest with
    | [] => finished
    | b :: _ =>
      if c.column ≠ indent then finished
      else
        let joined :=
          if !literal && lastBreak = ['\n'] && !lastBlank && !isBlank b then
            if emptyBreaks.isEmpty then [' '] else emptyBreaks
          else lastBreak ++ emptyBreaks
        let (line, c) := c.span fun c => !isBreak c
        let (taken, c) := c.lineBreak
        match readEmptyLines (c.rest.length + 1) indent 0 [] c with
        | none => none
        | some (breaks, _, c) =>
          readBlockLines steps literal chomping indent
            (line.reverse ++ joined.reverse ++ text) taken breaks (isBlank b) c

/-- A block scalar from behind its mark, in a block that is indented by
`parent`. -/
def readBlock
    (literal : Bool) (parent : Int) (c : Cursor) :
    Option (List Char × Cursor) := do
  let (chomping, indentation, c) ← readBlockHeader c
  let stated :=
    if indentation = 0 then 0 else (max parent 0).toNat + indentation
  let steps := c.rest.length + 1
  let (breaks, greatest, c) ← readEmptyLines steps stated 0 [] c
  let indent :=
    if stated = 0 then max greatest (max (parent + 1).toNat 1) else stated
  readBlockLines steps literal chomping indent [] [] breaks false c

end ConfigTree.Yaml
