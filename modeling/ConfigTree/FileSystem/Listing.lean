import ConfigTree.FileSystem.Lookup
import ConfigTree.Json.Value

/-!
# File systems as JSON

A listing maps paths to what stands there: a string is the text of a file, `hex`
gives a file's bytes and `link` where a link leads to. A path that ends in a
slash is a directory, whatever is said of it.
-/

namespace ConfigTree

def hexDigit? (c : Char) : Option Nat :=
  if c.isDigit then some (c.toNat - '0'.toNat)
  else if 'a' ≤ c && c ≤ 'f' then some (c.toNat - 'a'.toNat + 10)
  else if 'A' ≤ c && c ≤ 'F' then some (c.toNat - 'A'.toNat + 10)
  else none

/-- The bytes that pairs of digits write. -/
def hexBytes? : List Char → Option (List UInt8)
  | [] => some []
  | [_] => none
  | high :: low :: rest =>
    match hexDigit? high, hexDigit? low, hexBytes? rest with
    | some high, some low, some rest =>
        some (UInt8.ofNat (16 * high + low) :: rest)
    | _, _, _ => none

/-- What a listing says stands at a path. -/
def Entry.ofJson? (path : String) (content : Json.Value) : Option Entry :=
  if path.toList.getLast? = some '/' then some (.directory [])
  else
    match content with
    | .string text => some (.file text.toUTF8)
    | .object [("hex", .string digits)] => (hexBytes? digits.toList).map
      fun bytes => .file ⟨bytes.toArray⟩
    | .object [("link", .string target)] => some (.link target)
    | _ => none

namespace FileSystem

/-- The file system with nothing but the way to a current directory. -/
def withCurrent (path : String) : FileSystem :=
  let names := (namesOf path).reverse
  (⟨[], names⟩ : FileSystem).set names (.directory [])

/-- The file system with what a listing says put into it, in order. -/
def addListing
    (files : FileSystem) (listing : List (String × Json.Value)) :
    Option FileSystem :=
  listing.foldlM
    (fun files (path, content) =>
      (Entry.ofJson? path content).map (files.put path)) files

/-- The file system of a JSON text: the path of the `current` directory and a
listing of the `files` seen from there. -/
def ofText? (text : String) : Option FileSystem :=
  match Json.Value.ofText? text with
  | some (.object members) =>
    match members.lookup "current", members.lookup "files" with
    | some (.string current), some (.object listing) =>
        (withCurrent current).addListing listing
    | _, _ => none
  | _ => none

end FileSystem

end ConfigTree
