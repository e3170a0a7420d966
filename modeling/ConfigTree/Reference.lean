import ConfigTree.Text.Blank

/-!
# References

A string of a tree that starts with `./` names a file or directory near by, and
one that starts with `[module]` an installed package and a way inside it. Every
other string stands for itself. A package has a name of one segment, or of two
where the first starts with `@`.
-/

namespace ConfigTree

inductive Reference where
  | relative (text : String)
  | package (name : String) (subpath : String)
deriving DecidableEq, Repr, Inhabited

/-- What is wrong with a string that starts like a package reference. -/
inductive Malformation where
  | noBlankBehindMark
  | noName
  | blank
  | scopeAlone
  | emptySegment
  | dotSegment
  | leavesPackage
deriving DecidableEq, Repr, Inhabited

def Malformation.message : Malformation → String
  | .noBlankBehindMark => "expected a single space after [module]"
  | .noName => "missing package name"
  | .blank => "package path must not contain whitespace"
  | .scopeAlone => "scoped package needs both @scope and name"
  | .emptySegment => "empty package name segment"
  | .dotSegment => "package name segment must not be . or .."
  | .leavesPackage => "subpath must stay inside the package"

namespace Reference

def relativeMark : List Char :=
  ['.', '/']

def packageMark : List Char :=
  ['[', 'm', 'o', 'd', 'u', 'l', 'e', ']']

/-- What stands before the first slash and, if there is one, behind it. -/
def cut (text : List Char) : List Char × Option (List Char) :=
  match text.dropWhile (· ≠ '/') with
  | [] => (text, none)
  | _ :: after => (text.takeWhile (· ≠ '/'), some after)

/-- Whether a segment is a dot or two, however many `@` stand before it. -/
def isDots (segment : List Char) : Bool :=
  let bare := segment.dropWhile (· = '@')
  bare = ['.'] || bare = ['.', '.']

/-- A name of the given segments and a way inside the package, if they are
well-formed. -/
def ofSegments
    (segments : List (List Char)) (subpath : List Char) :
    Except Malformation Reference :=
  if segments.any (·.isEmpty) || segments.head? = some ['@'] then
    .error .emptySegment
  else if segments.any isDots then .error .dotSegment
  else if (subpath.splitOn '/').contains ['.', '.'] then .error .leavesPackage
  else
    .ok (.package (String.ofList (['/'].intercalate segments))
      (String.ofList subpath))

/-- The package and the way inside it that a text names. -/
def ofPackageText (text : List Char) : Except Malformation Reference :=
  if text.isEmpty then .error .noName
  else if text.any Text.isBlank then .error .blank
  else
    let (first, rest) := cut text
    if text.head? = some '@' then
      match rest with
      | none => .error .scopeAlone
      | some rest =>
        let (second, rest) := cut rest
        ofSegments [first, second] (rest.getD [])
    else ofSegments [first] (rest.getD [])

/-- What a string refers to: nothing if it stands for itself. -/
def classify (value : String) : Except Malformation (Option Reference) :=
  let text := value.toList
  if relativeMark.isPrefixOf text then .ok (some (.relative value))
  else if packageMark.isPrefixOf text then
    match text.drop packageMark.length with
    | ' ' :: rest => (ofPackageText rest).map some
    | _ => .error .noBlankBehindMark
  else .ok none

end Reference

end ConfigTree
