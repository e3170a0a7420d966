import ConfigTree.Double.Layout
import ConfigTree.Json.Value

/-!
# Printing JSON

The compact form has no space at all. The indented form gives every item and
member a line of its own, two columns further in than the line of its container;
an empty container stays on one line.
-/

namespace ConfigTree.Json

/-- Exponents from -5 to 15 are written in positional notation; greater ones
carry a plus sign. -/
def numberLayout : Double.Layout where
  leastPositional := -5
  greatestPositional := 15
  positiveExponent := "e+"
  nan := "null"
  infinity := "null"

def numberText : Number → List Char
  | .integer value => (toString value).toList
  | .real value => (value.text numberLayout).toList

/-- A character inside quotes. -/
def escaped (c : Char) : List Char :=
  if c = '"' then ['\\', '"']
  else if c = '\\' then ['\\', '\\']
  else if c = '\x08' then ['\\', 'b']
  else if c = '\x0c' then ['\\', 'f']
  else if c = '\n' then ['\\', 'n']
  else if c = '\r' then ['\\', 'r']
  else if c = '\t' then ['\\', 't']
  else if c.toNat < 0x20 then
    ['\\', 'u', '0', '0'] ++ (if c.toNat < 0x10 then ['0'] else []) ++
      Nat.toDigits 16 c.toNat
  else [c]

def stringText (text : String) : List Char :=
  '"' :: text.toList.flatMap escaped ++ ['"']

mutual

def compact : Value → List Char
  | .null => "null".toList
  | .bool true => "true".toList
  | .bool false => "false".toList
  | .number value => numberText value
  | .string value => stringText value
  | .array items => '[' :: compactItems items ++ [']']
  | .object members => '\x7b' :: compactMembers members ++ ['\x7d']

def compactItems : List Value → List Char
  | [] => []
  | [item] => compact item
  | item :: rest => compact item ++ ',' :: compactItems rest

def compactMembers : List (String × Value) → List Char
  | [] => []
  | [(name, value)] => stringText name ++ ':' :: compact value
  | (name, value) :: rest =>
      stringText name ++ ':' :: compact value ++ ',' :: compactMembers rest

end

/-- A line break and the blanks up to a depth of nesting. -/
def lineAt (depth : Nat) : List Char :=
  '\n' :: List.replicate (2 * depth) ' '

mutual

def indented (depth : Nat) : Value → List Char
  | .array [] => ['[', ']']
  | .array items =>
      '[' :: indentedItems (depth + 1) items ++ lineAt depth ++ [']']
  | .object [] => ['\x7b', '\x7d']
  | .object members =>
      '\x7b' :: indentedMembers (depth + 1) members ++ lineAt depth ++ ['\x7d']
  | .null => "null".toList
  | .bool true => "true".toList
  | .bool false => "false".toList
  | .number value => numberText value
  | .string value => stringText value

def indentedItems (depth : Nat) : List Value → List Char
  | [] => []
  | [item] => lineAt depth ++ indented depth item
  | item :: rest =>
      lineAt depth ++ indented depth item ++ ',' :: indentedItems depth rest

def indentedMembers (depth : Nat) : List (String × Value) → List Char
  | [] => []
  | [(name, value)] =>
      lineAt depth ++ stringText name ++ ':' :: ' ' :: indented depth value
  | (name, value) :: rest =>
    lineAt depth ++ stringText name ++ ':' :: ' ' :: indented depth value ++
      ',' :: indentedMembers depth rest

end

def Value.compactText (value : Value) : String :=
  String.ofList (compact value)

def Value.indentedText (value : Value) : String :=
  String.ofList (indented 0 value)

end ConfigTree.Json
