import ConfigTree.Yaml.Scalar

/-!
# Tokens of a YAML text

The text cut into marks, names and scalars. Where blocks begin and end follows
from the columns; a key without a question mark is recognised only when its
colon comes, so the marks for it are put in behind.
-/

namespace ConfigTree.Yaml

inductive Token where
  | streamEnd
  | version (major minor : Nat)
  | handle (name expansion : String)
  | documentStart
  | documentEnd
  | blockSequence
  | blockMapping
  | blockEnd
  | flowSequence
  | flowSequenceEnd
  | flowMapping
  | flowMappingEnd
  | blockEntry
  | flowEntry
  | key
  | value
  | alias (name : String)
  | anchor (name : String)
  | tag (handle suffix : String)
  | scalar (style : Style) (text : String)
deriving DecidableEq, Repr

/-- A place where a key may have begun. A required one must turn out to be a
key. -/
structure Candidate where
  required : Bool
  number : Nat
  index : Nat
  line : Nat
  column : Nat

/-- The tokens so far, last first, and what decides about the next ones. `keys`
has a candidate for every open flow collection and one for the block around
them, innermost first. -/
structure Lexer where
  cursor : Cursor
  tokens : List Token
  count : Nat
  keyAllowed : Bool
  indent : Int
  outer : List Int
  keys : List (Option Candidate)

namespace Lexer

def start (text : List Char) : Lexer :=
  ⟨Cursor.start text, [], 0, true, -1, [], [none]⟩

def inFlow (l : Lexer) : Bool :=
  1 < l.keys.length

def emit (token : Token) (l : Lexer) : Lexer :=
  { l with tokens := token :: l.tokens, count := l.count + 1 }

/-- Puts a token in front of the one with the given number. -/
def emitAt (number : Nat) (token : Token) (l : Lexer) : Lexer :=
  { l with
    tokens := l.tokens.insertIdx (l.count - number) token,
    count := l.count + 1 }

/-! ## Keys and blocks -/

/-- Forgets candidates that lie in an earlier line or too far back. -/
def forgetStale (l : Lexer) : Option Lexer := do
  let keys ← l.keys.mapM fun
    | some candidate =>
      if candidate.line < l.cursor.line || candidate.index + 1024 <
        l.cursor.index then
        if candidate.required then none else some none
      else some (some candidate)
    | none => some none
  some { l with keys := keys }

def dropCandidate (l : Lexer) : Option Lexer :=
  match l.keys with
  | some candidate :: keys =>
      if candidate.required then none else some { l with keys := none :: keys }
  | _ => some l

def noteCandidate (l : Lexer) : Option Lexer :=
  if l.keyAllowed then do
    let l ← l.dropCandidate
    let candidate : Candidate :=
      ⟨!l.inFlow && l.indent = l.cursor.column, l.count, l.cursor.index,
        l.cursor.line, l.cursor.column⟩
    some { l with keys := some candidate :: l.keys.drop 1 }
  else some l

/-- Opens a block at a column that lies further in than the current one. -/
def openBlock
    (column : Nat) (number : Option Nat) (token : Token) (l : Lexer) :
    Lexer :=
  if !l.inFlow && l.indent < column then
    let l := { l with outer := l.indent :: l.outer, indent := column }
    match number with
    | some number => l.emitAt number token
    | none => l.emit token
  else l

/-- Closes the blocks that lie further in than a column. -/
def closeBlocks (column : Int) (l : Lexer) : Lexer :=
  if l.inFlow then l else close l.outer l
where
  close : List Int → Lexer → Lexer
    | [], l => l
    | outer :: others, l =>
      if column < l.indent then
        close others
          ({ l with indent := outer, outer := others }.emit .blockEnd)
      else
        l

/-! ## Marks -/

/-- The cursor at the next token: behind blanks, comments and breaks. A tab is a
blank only where no key may start. -/
def skipToToken (steps : Nat) (l : Lexer) : Lexer :=
  match steps with
  | 0 => l
  | steps + 1 =>
    let c := match l.cursor.column, l.cursor.rest with
      | 0, '\ufeff' :: _ => l.cursor.next
      | _, _ => l.cursor
    let c :=
      c.skipWhile fun b => b = ' ' || ((l.inFlow || !l.keyAllowed) && b = '\t')
    let c := match c.rest with
      | '#' :: _ => c.skipWhile fun b => !isBreak b
      | _ => c
    if c.atBreak then
      skipToToken steps
        { l with
          cursor := c.lineBreak.2,
          keyAllowed := l.keyAllowed || !l.inFlow }
    else { l with cursor := c }

/-- A mark between documents, which ends all blocks. -/
def documentMark (token : Token) (l : Lexer) : Option Lexer := do
  let l ← (l.closeBlocks (-1)).dropCandidate
  some ({ l with keyAllowed := false, cursor := l.cursor.skip 3 }.emit token)

def flowStart (token : Token) (l : Lexer) : Option Lexer := do
  let l ← l.noteCandidate
  some ({ l with
          keys := none :: l.keys,
          keyAllowed := true,
          cursor := l.cursor.next }.emit token)

def flowEnd (token : Token) (l : Lexer) : Option Lexer := do
  let l ← l.dropCandidate
  let keys := if l.inFlow then l.keys.drop 1 else l.keys
  some ({ l with
          keys := keys,
          keyAllowed := false,
          cursor := l.cursor.next }.emit token)

def flowEntry (l : Lexer) : Option Lexer := do
  let l ← l.dropCandidate
  some ({ l with keyAllowed := true, cursor := l.cursor.next }.emit .flowEntry)

def blockEntry (l : Lexer) : Option Lexer :=
  if !l.inFlow && !l.keyAllowed then none
  else do
    let l ← (l.openBlock l.cursor.column none .blockSequence).dropCandidate
    some ({ l with keyAllowed := true, cursor := l.cursor.next }.emit
      .blockEntry)

def explicitKey (l : Lexer) : Option Lexer :=
  if !l.inFlow && !l.keyAllowed then none
  else do
    let l ← (l.openBlock l.cursor.column none .blockMapping).dropCandidate
    some ({ l with keyAllowed := !l.inFlow, cursor := l.cursor.next }.emit .key)

/-- The colon behind a key: a candidate turns into the key. -/
def valueMark (l : Lexer) : Option Lexer :=
  match l.keys with
  | some candidate :: keys =>
    let l :=
      (l.emitAt candidate.number .key).openBlock candidate.column
        (some candidate.number) .blockMapping
    some ({ l with
            keys := none :: keys,
            keyAllowed := false,
            cursor := l.cursor.next }.emit .value)
  | _ =>
    if !l.inFlow && !l.keyAllowed then none
    else
      let l := l.openBlock l.cursor.column none .blockMapping
      some ({ l with keyAllowed := !l.inFlow, cursor := l.cursor.next }.emit
        .value)

/-! ## Names and tags -/

/-- What may follow the name of an anchor. -/
def endsName : List Char → Bool
  | [] => true
  | c :: _ =>
    isBlank c || isBreak c || c = '?' || c = ':' || c = ',' || c = ']' ||
      c = '\x7d' || c = '%' || c = '@' || c = '\x60'

/-- The name behind the mark of an anchor or alias. -/
def anchorName (make : String → Token) (l : Lexer) : Option Lexer := do
  let l ← l.noteCandidate
  let (name, c) := l.cursor.next.span isNameChar
  if name.isEmpty || !endsName c.rest then none
  else
    some ({ l with keyAllowed := false, cursor := c }.emit
      (make (String.ofList name)))

/-- A character of a tag. The flow marks among them only belong to a tag in
angle brackets. -/
def isTagChar (verbatim : Bool) (c : Char) : Bool :=
  isNameChar c || c = ';' || c = '/' || c = '?' || c = ':' || c = '@' ||
    c = '&' || c = '=' || c = '+' || c = '$' || c = '.' || c = '!' || c = '~' ||
    c = '*' || c = '\'' || c = '(' || c = ')' || c = '%' ||
    (verbatim && (c = ',' || c = '[' || c = ']'))

/-- The bytes of a tag, in which a percent sign starts the number of one. -/
def tagBytes : List Char → Option (List UInt8)
  | [] => some []
  | '%' :: a :: b :: rest =>
    match hexValue? a, hexValue? b, tagBytes rest with
    | some a, some b, some bytes => some (UInt8.ofNat (16 * a + b) :: bytes)
    | _, _, _ => none
  | c :: rest =>
    if c = '%' then
      none
    else
      (tagBytes rest).map fun bytes =>
        (String.singleton c).toUTF8.toList ++ bytes

def tagText? (chars : List Char) : Option String :=
  if chars.all (· ≠ '%') then some (String.ofList chars)
  else (tagBytes chars).bind fun bytes => String.fromUTF8? ⟨bytes.toArray⟩

/-- The handle that a tag starts with: an exclamation mark, and a name with
another one behind it. -/
def readHandle (c : Cursor) : Option (String × Cursor) :=
  match c.rest with
  | '!' :: _ =>
    let (name, c) := c.next.span isNameChar
    match c.rest with
    | '!' :: _ => some (String.ofList ('!' :: name ++ ['!']), c.next)
    | _ => some (String.ofList ('!' :: name), c)
  | _ => none

def isNamedHandle (handle : String) : Bool :=
  1 < handle.length && handle.endsWith "!"

/-- The handle and suffix of a tag. A lone exclamation mark is a suffix without
a handle. -/
def readTag (c : Cursor) : Option (String × String × Cursor) :=
  match c.rest with
  | '!' :: '<' :: _ => do
    let (chars, c) := (c.skip 2).span (isTagChar true)
    let suffix ← tagText? chars
    match c.rest with
    | '>' :: _ => if chars.isEmpty then none else some ("", suffix, c.next)
    | _ => none
  | _ => do
    let (handle, c) ← readHandle c
    let (chars, c) := c.span (isTagChar false)
    let suffix ← tagText? chars
    if isNamedHandle handle then
      if chars.isEmpty then none else some (handle, suffix, c)
    else
      let suffix := String.ofList (handle.toList.drop 1) ++ suffix
      if suffix.isEmpty then some ("", "!", c) else some ("!", suffix, c)

def tag (l : Lexer) : Option Lexer := do
  let l ← l.noteCandidate
  let (handle, suffix, c) ← readTag l.cursor
  let ended := startsBlank c.rest || (l.inFlow && c.rest.head? = some ',')
  if ended then
    some ({ l with keyAllowed := false, cursor := c }.emit (.tag handle suffix))
  else
    none

/-! ## Directives -/

/-- A number of a version, at most nine digits long. -/
def readVersionNumber (c : Cursor) : Option (Nat × Cursor) :=
  let (digits, c) := c.span Char.isDigit
  if digits.isEmpty || 9 < digits.length then none
  else
    some (digits.foldl (fun n digit => 10 * n + (digit.toNat - '0'.toNat)) 0, c)

def readVersion (c : Cursor) : Option (Token × Cursor) := do
  let (major, c) ← readVersionNumber (c.skipWhile isBlank)
  match c.rest with
  | '.' :: _ => do
    let (minor, c) ← readVersionNumber c.next
    some (.version major minor, c)
  | _ => none

/-- The handle that a directive declares, and what it stands for. -/
def readDeclaration (c : Cursor) : Option (Token × Cursor) := do
  let (handle, c) ← readHandle (c.skipWhile isBlank)
  if handle ≠ "!" && !isNamedHandle handle then none
  else
    match c.rest with
    | b :: _ =>
      if isBlank b then do
        let (chars, c) := (c.skipWhile isBlank).span (isTagChar true)
        let expansion ← tagText? chars
        if chars.isEmpty || !startsBlank c.rest then
          none
        else
          some (.handle handle expansion, c)
      else none
    | [] => none

def directive (l : Lexer) : Option Lexer := do
  let l ← (l.closeBlocks (-1)).dropCandidate
  let (name, c) := l.cursor.next.span isNameChar
  if !startsBlank c.rest then none
  else
    let found := match String.ofList name with
      | "YAML" => readVersion c
      | "TAG" => readDeclaration c
      | _ => none
    let (token, c) ← found
    let c ← c.restOfLine?
    some ({ l with keyAllowed := false, cursor := c }.emit token)

/-! ## Scalars -/

def blockScalar (literal : Bool) (l : Lexer) : Option Lexer := do
  let l ← l.dropCandidate
  let (text, c) ← readBlock literal l.indent l.cursor.next
  let style := if literal then Style.literal else .folded
  some ({ l with keyAllowed := true, cursor := c }.emit
    (.scalar style (String.ofList text)))

def quotedScalar (single : Bool) (l : Lexer) : Option Lexer := do
  let l ← l.noteCandidate
  let (text, c) ← readQuoted l.cursor.rest.length single [] l.cursor.next
  let style := if single then Style.singleQuoted else .doubleQuoted
  some ({ l with keyAllowed := false, cursor := c }.emit
    (.scalar style (String.ofList text)))

def plainScalar (l : Lexer) : Option Lexer := do
  let l ← l.noteCandidate
  let plain ←
    readPlain (l.cursor.rest.length + 1) l.inFlow (l.indent + 1) [] .empty
      l.cursor
  some ({ l with keyAllowed := plain.broken, cursor := plain.after }.emit
    (.scalar .plain (String.ofList plain.text)))

/-- A character that starts something else than a plain scalar, unless it is a
dash, a question mark or a colon with more behind it. -/
def isIndicator (c : Char) : Bool :=
  c = '-' || c = '?' || c = ':' || isFlowMark c || c = '#' || c = '&' ||
    c = '*' || c = '!' || c = '|' || c = '>' || c = '\'' || c = '"' ||
    c = '%' || c = '@' || c = '\x60'

def startsPlain (inFlow : Bool) : List Char → Bool
  | [] => false
  | c :: after =>
    !(isIndicator c || isBlank c || isBreak c) ||
      (c = '-' && !(match after with | d :: _ => isBlank d | [] => false)) ||
      (!inFlow && (c = '?' || c = ':') && !startsBlank after)

/-! ## The whole text -/

/-- The next token, with the blocks that end before it. -/
def token (l : Lexer) : Option Lexer :=
  match l.cursor.rest with
  | [] => none
  | c :: after =>
    if l.cursor.column = 0 && c = '%' then l.directive
    else if l.cursor.atDocumentMark then
      l.documentMark (if c = '-' then .documentStart else .documentEnd)
    else if c = '[' then l.flowStart .flowSequence
    else if c = '\x7b' then l.flowStart .flowMapping
    else if c = ']' then l.flowEnd .flowSequenceEnd
    else if c = '\x7d' then l.flowEnd .flowMappingEnd
    else if c = ',' then l.flowEntry
    else if c = '-' && startsBlank after then l.blockEntry
    else if c = '?' && (l.inFlow || startsBlank after) then l.explicitKey
    else if c = ':' && (l.inFlow || startsBlank after) then l.valueMark
    else if c = '*' then l.anchorName .alias
    else if c = '&' then l.anchorName .anchor
    else if c = '!' then l.tag
    else if c = '|' && !l.inFlow then l.blockScalar true
    else if c = '>' && !l.inFlow then l.blockScalar false
    else if c = '\'' then l.quotedScalar true
    else if c = '"' then l.quotedScalar false
    else if startsPlain l.inFlow l.cursor.rest then l.plainScalar
    else none

/-- The tokens from here on to the end of the text, with those so far in
front. -/
def run (steps : Nat) (l : Lexer) : Option (List Token) :=
  match steps with
  | 0 => none
  | steps + 1 =>
    match (l.skipToToken (l.cursor.rest.length + 1)).forgetStale with
    | none => none
    | some l =>
      let l := l.closeBlocks l.cursor.column
      if l.cursor.rest.isEmpty then
        (l.closeBlocks (-1)).dropCandidate.map fun l =>
          (l.emit .streamEnd).tokens.reverse
      else
        match l.token with
        | none => none
        | some l => run steps l

end Lexer

/-- The tokens of a text, if all its characters may occur and every one is part
of a token. -/
def tokens? (text : String) : Option (List Token) :=
  let chars := text.toList
  if chars.all isAllowed then
    (Lexer.start chars).run (chars.length + 1)
  else
    none

end ConfigTree.Yaml
