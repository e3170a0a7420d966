import ConfigTree.Yaml.Cursor

/-!
# A page of YAML output

Output is written from left to right onto a page that knows its column and
whether what stands before it is only blank or only indentation. Lines are never
broken for their length.
-/

namespace ConfigTree.Yaml

/-- What is written so far, last character first. -/
structure Page where
  written : List Char
  column : Nat
  afterBlank : Bool
  onlyIndented : Bool

namespace Page

def blank : Page :=
  ⟨[], 0, true, true⟩

def text (page : Page) : String :=
  String.ofList page.written.reverse

def put (c : Char) (page : Page) : Page :=
  { page with written := c :: page.written, column := page.column + 1 }

def putAll (chars : List Char) (page : Page) : Page :=
  chars.foldl (fun page c => page.put c) page

/-- Writes a character that ends the line. -/
def putBreak (c : Char) (page : Page) : Page :=
  { page with written := c :: page.written, column := 0 }

def newLine (page : Page) : Page :=
  page.putBreak '\n'

/-- Goes to a column, in a new line unless only indentation stands before it. -/
def indent (column : Nat) (page : Page) : Page :=
  let here :=
    page.onlyIndented &&
      (page.column < column || (page.column = column && page.afterBlank))
  let page := if here then page else page.newLine
  { page.putAll (List.replicate (column - page.column) ' ') with
    afterBlank := true,
    onlyIndented := true }

/-- Writes a mark, set off by a blank from what stands before it if it has to
be. -/
def mark (chars : List Char) (setOff : Bool) (page : Page) : Page :=
  let page := if setOff && !page.afterBlank then page.put ' ' else page
  { page.putAll chars with afterBlank := false, onlyIndented := false }

/-- Writes the mark of an item or of a key, behind which indentation may go
on. -/
def itemMark (c : Char) (page : Page) : Page :=
  { page.mark [c] true with
    afterBlank := false,
    onlyIndented := page.onlyIndented }

end Page

end ConfigTree.Yaml
