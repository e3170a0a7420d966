import ConfigTree.Yaml.Markup
import ConfigTree.Yaml.Plain

/-!
# YAML values

A value is what a node means once aliases are followed and scalars told apart.
Keys of a mapping are values themselves, and no two keys of one mapping are the
same. A tag is kept as its name: tags are the same exactly if their names are.
-/

namespace ConfigTree.Yaml

inductive Value where
  | null
  | bool (value : Bool)
  | number (value : Number)
  | string (value : String)
  | sequence (items : List Value)
  | mapping (entries : List (Value × Value))
  | tagged (tag : String) (value : Value)
deriving Inhabited

namespace Value

/-! ## Sameness -/

def sameNumber : Number → Number → Bool
  | .integer a, .integer b => a = b
  | .real a, .real b => a.same b
  | _, _ => false

mutual

/-- Whether two keys count as one. The order of a mapping's entries does not
matter for it. -/
def same : Value → Value → Bool
  | .null, .null => true
  | .bool a, .bool b => a = b
  | .number a, .number b => sameNumber a b
  | .string a, .string b => a = b
  | .sequence as, .sequence bs => sameItems as bs
  | .mapping as, .mapping bs => as.length = bs.length && entriesWithin as bs
  | .tagged a x, .tagged b y => a = b && same x y
  | _, _ => false

def sameItems : List Value → List Value → Bool
  | [], [] => true
  | a :: as, b :: bs => same a b && sameItems as bs
  | _, _ => false

/-- Whether every entry has one with the same key and value in the other
list. -/
def entriesWithin : List (Value × Value) → List (Value × Value) → Bool
  | [], _ => true
  | (key, value) :: rest, others =>
      entryAmong key value others && entriesWithin rest others

def entryAmong (key value : Value) : List (Value × Value) → Bool
  | [] => false
  | (otherKey, otherValue) :: rest =>
      (same key otherKey && same value otherValue) || entryAmong key value rest

end

/-! ## Meaning of nodes -/

def ofPlain (text : String) : Option Value :=
  match Plain.ofText text with
  | .null => some .null
  | .bool value => some (.bool value)
  | .number value => some (.number value)
  | .unrepresentable => none
  | .string => some (.string text)

def coreTag (name : String) : String :=
  "tag:yaml.org,2002:" ++ name

/-- The value of a scalar with one of the tags of the core schema; other tags
make it a string. -/
def ofCoreTagged (tag text : String) : Option Value :=
  if tag = coreTag "bool" then (boolWord? text).map .bool
  else if tag = coreTag "int" then
    match integer? text.toList with
    | some n =>
        if Number.leastSigned ≤ n && n ≤ Number.greatestUnsigned then
          some (.number (.integer n))
        else
          none
    | none => none
  else if tag = coreTag "float" then
    (real? text.toList).map fun value => .number (.real value)
  else if tag = coreTag "null" then if isNullWord text then some .null else none
  else some (.string text)

/-- The name of a tag. An exclamation mark in front of it does not count, unless
nothing follows. -/
def tagName (tag : String) : String :=
  match tag.toList with
  | '!' :: c :: rest => String.ofList (c :: rest)
  | _ => tag

/-- Whether a tag is one of the text's own. -/
def isOwnTag (tag : String) : Bool :=
  tag.toList.head? = some '!'

/-- The name of a tag of the text's own, none for other tags. What is written
behind the mark is a tag again, so `!include` and `!<!!include>` are the
same. -/
def ownTag? (tag : String) : Option String :=
  if isOwnTag tag then some (tagName (tagName tag)) else none

/-- The value of a scalar without a tag of the text's own. -/
def ofScalar
    (tag : Option String) (style : Style) (text : String) :
    Option Value :=
  match tag with
  | some tag => ofCoreTagged tag text
  | none => if style = .plain then ofPlain text else some (.string text)

/-- Adds an entry unless its key is there already. -/
def addEntry
    (key value : Value) (entries : List (Value × Value)) :
    Option (List (Value × Value)) :=
  if entries.any fun entry => entry.1.same key then
    none
  else
    some (entries ++ [(key, value)])

/-- The anchored nodes, and how many aliases may still be followed. -/
structure Anchors where
  nodes : List (Nat × Markup)
  budget : Nat

abbrev Compose (α : Type) := StateT Anchors Option α

/-- The node that an alias stands for; the last one of several with its
number. -/
def follow (anchor : Nat) : Compose Markup := do
  let anchors ← get
  match anchors.budget, (anchors.nodes.filter (·.1 = anchor)).getLast? with
  | budget + 1, some (_, markup) => do
    set { anchors with budget := budget }
    pure markup
  | _, _ => failure

/-- A node with an alias followed. -/
def deref : Markup → Compose Markup
  | .alias anchor => follow anchor
  | markup => pure markup

/-- A value with the tag of the text's own that it carries. -/
def wrap (tag : Option String) (value : Value) : Value :=
  match tag.bind ownTag? with
  | some name => .tagged name value
  | none => value

/-- The value of a node within a depth of collections. -/
def compose : Nat → Markup → Compose Value
  | depth, markup => do
    match ← deref markup with
    | .alias _ => failure
    | .scalar _ tag style text =>
      match ofScalar (tag.filter fun tag => !isOwnTag tag) style text with
      | some value => pure (wrap tag value)
      | none => failure
    | .sequence _ tag items =>
      match depth with
      | 0 => failure
      | depth + 1 => do
        let items ← items.mapM (compose depth)
        pure (wrap tag (.sequence items))
    | .mapping _ tag entries =>
      match depth with
      | 0 => failure
      | depth + 1 => do
        let entries ← entries.foldlM (fun before (key, value) => do
          let key ← compose depth key
          let value ← compose depth value
          match addEntry key value before with
          | some after => pure after
          | none => failure) []
        pure (wrap tag (.mapping entries))

/-- How deep collections may be nested. -/
def deepest : Nat := 128

/-- Runs a composition over a text's nodes. Aliases may be followed a hundred
times as often as there are nodes. -/
def runCompose
    {α : Type} (composition : Compose α) (markup : Markup) :
    Option α :=
  (composition.run ⟨markup.anchored, 100 * markup.size⟩).map (·.1)

/-- The value that a node means. -/
def ofMarkup? (markup : Markup) : Option Value :=
  runCompose (compose deepest markup) markup

/-- The value that a YAML text holds: null if it holds nothing. -/
def ofText? (text : String) : Option Value :=
  (Markup.ofText? text).bind fun
    | some markup => ofMarkup? markup
    | none => some .null

end Value

end ConfigTree.Yaml
