import ConfigTree.Double.Layout
import ConfigTree.Yaml.Page
import ConfigTree.Yaml.Value

/-!
# Printing YAML

Collections are written as blocks, empty ones in brackets. A string is written
plain where it reads back as that string, and otherwise in quotes; a string with
line feeds becomes a literal block where one can hold it.
-/

namespace ConfigTree.Yaml

/-- Exponents from -5 to 15 are written in positional notation. -/
def numberLayout : Double.Layout where
  leastPositional := -5
  greatestPositional := 15
  positiveExponent := "e"
  nan := ".nan"
  infinity := ".inf"

def numberText : Number → String
  | .integer value => toString value
  | .real value => value.text numberLayout

/-! ## What a text allows -/

/-- A character that may stand for itself. -/
def isPrintable (c : Char) : Bool :=
  let n := c.toNat
  n =
    0xa || (0x20 ≤ n && n ≤ 0x7e) || (0xa0 ≤ n && n ≤ 0xd7ff) ||
      (0xe000 ≤ n && n ≤ 0xfffd && n ≠ 0xfeff) || 0x10000 ≤ n

/-- The styles in which a text can be written. -/
structure Allowance where
  severalLines : Bool
  plain : Bool
  singleQuoted : Bool
  literal : Bool

/-- A character that a plain text cannot start with. -/
def isOpeningMark (c : Char) : Bool :=
  c = '#' || isFlowMark c || c = '&' || c = '*' || c = '!' || c = '|' ||
    c = '>' || c = '\'' || c = '"' || c = '%' || c = '@' || c = '\x60'

/-- Whether a plain text would be taken for something else from its first
character on. -/
def opensMark : List Char → Bool
  | '-' :: '-' :: '-' :: _ => true
  | '.' :: '.' :: '.' :: _ => true
  | c :: after =>
      isOpeningMark c || ((c = '?' || c = ':' || c = '-') && startsBlank after)
  | [] => false

/-- Whether a plain text would end early: at a colon with a blank behind it or a
number sign with one before it. -/
def endsEarly : List Char → Bool
  | [] => false
  | c :: after =>
    (c = ':' && startsBlank after) ||
      ((isBlank c || isBreak c) && after.head? = some '#') || endsEarly after

/-- Whether a character of the first kind stands right before one of the
second. -/
def adjacent (first second : Char → Bool) (text : List Char) : Bool :=
  (text.zip (text.drop 1)).any fun pair => first pair.1 && second pair.2

def isSpace (c : Char) : Bool :=
  c = ' '

def allowanceOf (text : List Char) : Allowance :=
  match text with
  | [] => ⟨false, true, true, false⟩
  | first :: _ =>
    let last := text.getLast?.getD first
    let severalLines := text.any isBreak
    let framed := isSpace first || isBreak first || isSpace last || isBreak last
    let spaceBreak := adjacent isSpace isBreak text
    let breakSpace := adjacent isBreak isSpace text
    let special := !text.all isPrintable
    { severalLines := severalLines
      plain :=
        !(framed || breakSpace || spaceBreak || special || severalLines ||
          opensMark text || endsEarly text)
      singleQuoted := !(breakSpace || spaceBreak || special)
      literal := !(isSpace last || spaceBreak || special) }

/-- The style that a string asks for before its characters are looked at. A text
that would be read as something else than a string asks for quotes. -/
def wantedStyle (text : String) : Style :=
  if text.toList.contains '\n' then .literal
  else
    match Plain.ofText text with
    | .string => if isPaddedNumeral text.toList then .singleQuoted else .plain
    | _ => .singleQuoted

/-- The style in which a scalar is written; a key in one line cannot be a
block. -/
def chosenStyle (wanted : Style) (text : List Char) (isKey : Bool) : Style :=
  let allowance := allowanceOf text
  if isKey && allowance.severalLines then .doubleQuoted
  else
    let style :=
      if wanted = .plain && (!allowance.plain || (text.isEmpty && isKey)) then
        .singleQuoted
      else
        wanted
    let style :=
      if style = .singleQuoted && !allowance.singleQuoted then
        .doubleQuoted
      else
        style
    if style = .literal && (!allowance.literal || isKey) then
      .doubleQuoted
    else
      style

/-! ## Scalars -/

def upperHex (width n : Nat) : List Char :=
  let digits := (Nat.toDigits 16 n).map Char.toUpper
  List.replicate (width - digits.length) '0' ++ digits

/-- An escape for a character in double quotes. -/
def escape (c : Char) : List Char :=
  let n := c.toNat
  '\\' :: match n with
    | 0x00 => ['0']
    | 0x07 => ['a']
    | 0x08 => ['b']
    | 0x09 => ['t']
    | 0x0a => ['n']
    | 0x0b => ['v']
    | 0x0c => ['f']
    | 0x0d => ['r']
    | 0x1b => ['e']
    | 0x22 => ['"']
    | 0x5c => ['\\']
    | 0x85 => ['N']
    | 0xa0 => ['_']
    | 0x2028 => ['L']
    | 0x2029 => ['P']
    | _ =>
      if n ≤ 0xff then 'x' :: upperHex 2 n
      else if n ≤ 0xffff then 'u' :: upperHex 4 n
      else 'U' :: upperHex 8 n

def doubleQuotedChar (c : Char) : List Char :=
  if !isPrintable c || isBreak c || c = '"' || c = '\\' then escape c else [c]

namespace Page

def putPlain (text : List Char) (page : Page) : Page :=
  if text.isEmpty then
    { page with afterBlank := false, onlyIndented := false }
  else
    page.mark text true

def putDoubleQuoted (text : List Char) (page : Page) : Page :=
  ((page.mark ['"'] true).putAll (text.flatMap doubleQuotedChar)).mark ['"']
    false

/-- The characters between single quotes. A break is kept, and a line behind one
is indented. -/
def putSingleQuotedChars (column : Nat) : Bool → List Char → Page → Page
  | broken, [], page => if broken then page.indent column else page
  | broken, c :: rest, page =>
    if c = ' ' then putSingleQuotedChars column broken rest (page.put c)
    else if isBreak c then
      let page := if !broken && c = '\n' then page.newLine else page
      putSingleQuotedChars column true rest
        { page.putBreak c with onlyIndented := true }
    else
      let page := if broken then page.indent column else page
      let page := page.putAll (if c = '\'' then ['\'', c] else [c])
      putSingleQuotedChars column false rest { page with onlyIndented := false }

def putSingleQuoted (column : Nat) (text : List Char) (page : Page) : Page :=
  (putSingleQuotedChars column false text (page.mark ['\''] true)).mark ['\'']
    false

/-- The header of a literal block: the indentation where the text starts with a
blank, and what becomes of the breaks at its end. -/
def literalHeader (text : List Char) : List Char :=
  let indentation := match text with
    | c :: _ => if c = ' ' || isBreak c then ['2'] else []
    | [] => []
  let chomping := match text.reverse with
    | last :: before =>
      if !isBreak last then ['-']
      else match before with
        | previous :: _ => if isBreak previous then ['+'] else []
        | [] => ['+']
    | [] => ['-']
  '|' :: indentation ++ chomping

def putLiteralChars (column : Nat) : Bool → List Char → Page → Page
  | _, [], page => page
  | broken, c :: rest, page =>
    if isBreak c then
      putLiteralChars column true rest
        { page.putBreak c with onlyIndented := true }
    else
      let page := if broken then page.indent column else page
      putLiteralChars column false rest
        { page.put c with onlyIndented := false }

def putLiteral (column : Nat) (text : List Char) (page : Page) : Page :=
  let page := (page.mark (literalHeader text) true).newLine
  putLiteralChars column true text
    { page with afterBlank := true, onlyIndented := true }

/-- Writes a scalar, whose further lines go to the given column. -/
def putScalar
    (column : Nat)
    (wanted : Style)
    (text : String)
    (isKey : Bool)
    (page : Page) :
    Page :=
  let chars := text.toList
  match chosenStyle wanted chars isKey with
  | .plain => page.putPlain chars
  | .singleQuoted => page.putSingleQuoted column chars
  | .doubleQuoted => page.putDoubleQuoted chars
  | .literal | .folded => page.putLiteral column chars

end Page

/-! ## Values -/

def isWrittenTagChar (c : Char) : Bool :=
  Lexer.isTagChar true c && c ≠ '%'

/-- A tag as it is written; what a tag cannot hold is written as numbers of
bytes. -/
def tagText (tag : String) : List Char :=
  let name := if tag.startsWith "!" then tag.toList.drop 1 else tag.toList
  '!' :: name.flatMap fun c =>
    if isWrittenTagChar c then [c]
    else
      (String.singleton c).toUTF8.toList.flatMap fun byte =>
        '%' :: upperHex 2 byte.toNat

def Page.putTag (tag : Option String) (page : Page) : Page :=
  match tag with
  | some tag => page.mark (tagText tag) true
  | none => page

/-- The style and the text of a value that is no collection. -/
def scalarOf : Value → Option (Style × String)
  | .null => some (.plain, "null")
  | .bool true => some (.plain, "true")
  | .bool false => some (.plain, "false")
  | .number value => some (.plain, numberText value)
  | .string value => some (wantedStyle value, value)
  | _ => none

/-- The longest key that is written in one line with its value, in bytes. -/
def longestKey : Nat := 128

/-- Whether a key and its value can stand in one line. -/
def isSimpleKey : Value → Bool
  | .tagged tag value => fits (tag.utf8ByteSize + 1) value
  | value => fits 0 value
where
  fits (taken : Nat) (value : Value) : Bool :=
    match value with
    | .sequence items => items.isEmpty && taken ≤ longestKey
    | .mapping entries => entries.isEmpty && taken ≤ longestKey
    | value => match scalarOf value with
      | some (_, text) =>
          !text.toList.any isBreak && taken + text.utf8ByteSize ≤ longestKey
      | none => false

/-- Where a value stands: the column of the block around it, none at the top;
whether that block is a mapping; and whether the value is a key in one line. -/
structure Surroundings where
  column : Option Nat
  inMapping : Bool
  isKey : Bool

def Surroundings.inner (s : Surroundings) : Nat :=
  match s.column with
  | some column => column + 2
  | none => 0

mutual

/-- Writes a value, behind the tag it carries. -/
def Page.putValue
    (s : Surroundings) (tag : Option String) (value : Value) (page : Page) :
    Page :=
  match value with
  | .tagged tag value => Page.putValue s (some tag) value page
  | .sequence [] => (page.putTag tag).mark ['[', ']'] true
  | .sequence (item :: rest) =>
    let page := page.putTag tag
    let column :=
      if s.inMapping && !page.onlyIndented then s.column.getD 0 else s.inner
    Page.putItems column (item :: rest) page
  | .mapping [] => (page.putTag tag).mark ['\x7b', '\x7d'] true
  | .mapping (entry :: rest) =>
      Page.putEntries s.inner (entry :: rest) (page.putTag tag)
  | .null =>
      Page.putScalar (s.column.getD 0 + 2) .plain "null" s.isKey
        (page.putTag tag)
  | .bool value =>
      Page.putScalar (s.column.getD 0 + 2) .plain
        (if value then "true" else "false") s.isKey (page.putTag tag)
  | .number value =>
      Page.putScalar (s.column.getD 0 + 2) .plain (numberText value) s.isKey
        (page.putTag tag)
  | .string value =>
      Page.putScalar (s.column.getD 0 + 2) (wantedStyle value) value s.isKey
        (page.putTag tag)

def Page.putItems (column : Nat) (items : List Value) (page : Page) : Page :=
  match items with
  | [] => page
  | item :: rest =>
    let page := (page.indent column).itemMark '-'
    Page.putItems column rest
      (Page.putValue ⟨some column, false, false⟩ none item page)

def Page.putEntries
    (column : Nat) (entries : List (Value × Value)) (page : Page) :
    Page :=
  match entries with
  | [] => page
  | (key, value) :: rest =>
    let page := page.indent column
    let page :=
      if isSimpleKey key then
        (Page.putValue ⟨some column, true, true⟩ none key page).mark [':'] false
      else
        ((Page.putValue ⟨some column, true, false⟩ none key
          (page.itemMark '?')).indent column).itemMark ':'
    Page.putEntries column rest
      (Page.putValue ⟨some column, true, false⟩ none value page)

end

namespace Value

/-- The value as a document of its own, with a line break at its end. -/
def render (value : Value) : String :=
  ((Page.putValue ⟨none, false, false⟩ none value .blank).indent 0).text

def isTagged : Value → Bool
  | .tagged .. => true
  | _ => false

def isSingleEntry : Value → Bool
  | .mapping [_] => true
  | _ => false

mutual

/-- Whether a value can be written: a tagged value carries no second tag, and
the key of a mapping that has no tag and no other key is neither tagged nor such
a mapping itself. -/
def writable : Value → Bool
  | .tagged _ value => !value.isTagged && writableTagged value
  | .mapping [(key, value)] =>
      !key.isTagged && !key.isSingleEntry && writable key && writable value
  | .mapping entries => writableEntries entries
  | .sequence items => writableItems items
  | _ => true

def writableTagged : Value → Bool
  | .mapping entries => writableEntries entries
  | .sequence items => writableItems items
  | _ => true

def writableItems : List Value → Bool
  | [] => true
  | item :: rest => item.writable && writableItems rest

def writableEntries : List (Value × Value) → Bool
  | [] => true
  | (key, value) :: rest =>
      key.writable && value.writable && writableEntries rest

end

/-- The text of a value that can be written. -/
def text? (value : Value) : Option String :=
  if value.writable then some value.render else none

end Value

end ConfigTree.Yaml
