/-!
# Places in a YAML text

A cursor is the rest of a text together with where it starts: the column decides
what belongs to which block, the line and the count of characters how far a key
may be from its colon.
-/

namespace ConfigTree.Yaml

def isBreak (c : Char) : Bool :=
  c = '\n' || c = '\r' || c = '\x85' || c = '\u2028' || c = '\u2029'

def isBlank (c : Char) : Bool :=
  c = ' ' || c = '\t'

/-- A character of names: anchors, handles and directives are made of these. -/
def isNameChar (c : Char) : Bool :=
  c.isAlphanum || c = '-' || c = '_'

/-- Whether a text holds no character at all or starts with a blank or a
break. -/
def startsBlank : List Char → Bool
  | [] => true
  | c :: _ => isBlank c || isBreak c

/-- A character that may occur in a YAML text at all. -/
def isAllowed (c : Char) : Bool :=
  let n := c.toNat
  n = 9 || n = 0xa || n = 0xd || (0x20 ≤ n && n ≤ 0x7e) || n = 0x85 ||
    (0xa0 ≤ n && n ≤ 0xfffd) || 0x10000 ≤ n

structure Cursor where
  rest : List Char
  index : Nat
  line : Nat
  column : Nat

namespace Cursor

def start (text : List Char) : Cursor :=
  ⟨text, 0, 0, 0⟩

/-- The cursor behind the next character, which is taken for no break. -/
def next (c : Cursor) : Cursor :=
  ⟨c.rest.drop 1, c.index + 1, c.line, c.column + 1⟩

def skip (c : Cursor) (count : Nat) : Cursor :=
  ⟨c.rest.drop count, c.index + count, c.line, c.column + count⟩

/-- The characters before the first that is refused, and the cursor there; none
of them may be a break. -/
def span (c : Cursor) (accepts : Char → Bool) : List Char × Cursor :=
  let taken := c.rest.takeWhile accepts
  (taken, c.skip taken.length)

def skipWhile (c : Cursor) (accepts : Char → Bool) : Cursor :=
  (c.span accepts).2

/-- The line break that the cursor is at, as a scalar keeps it, and the cursor
behind it. -/
def lineBreak (c : Cursor) : List Char × Cursor :=
  match c.rest with
  | '\r' :: '\n' :: rest => (['\n'], ⟨rest, c.index + 2, c.line + 1, 0⟩)
  | '\u2028' :: rest => (['\u2028'], ⟨rest, c.index + 1, c.line + 1, 0⟩)
  | '\u2029' :: rest => (['\u2029'], ⟨rest, c.index + 1, c.line + 1, 0⟩)
  | b :: rest =>
      if isBreak b then
        (['\n'], ⟨rest, c.index + 1, c.line + 1, 0⟩)
      else
        ([], c)
  | [] => ([], c)

def atBreak (c : Cursor) : Bool :=
  match c.rest with
  | b :: _ => isBreak b
  | [] => false

/-- Whether three dashes or three points stand at the start of a line, on their
own. -/
def atDocumentMark (c : Cursor) : Bool :=
  c.column = 0 && match c.rest with
    | '-' :: '-' :: '-' :: rest => startsBlank rest
    | '.' :: '.' :: '.' :: rest => startsBlank rest
    | _ => false

/-- The cursor at the end of the line if nothing but blanks and a comment is
left of it, and behind its break. -/
def restOfLine? (c : Cursor) : Option Cursor :=
  let c := c.skipWhile isBlank
  let c := match c.rest with
    | '#' :: _ => c.skipWhile fun c => !isBreak c
    | _ => c
  match c.rest with
  | [] => some c
  | b :: _ => if isBreak b then some c.lineBreak.2 else none

end Cursor

end ConfigTree.Yaml
