import ConfigTree.Yaml.Token

/-!
# The nodes of a YAML text

The tree that the tokens spell, before aliases are followed and plain scalars
are told apart. An anchor is kept as a number: how many names the text has
anchored before. A name anchored again gets a number that a later name can
share.
-/

namespace ConfigTree.Yaml

inductive Markup where
  | scalar
      (anchor : Option Nat)
      (tag : Option String)
      (style : Style)
      (text : String)
  | sequence (anchor : Option Nat) (tag : Option String) (items : List Markup)
  | mapping
      (anchor : Option Nat)
      (tag : Option String)
      (entries : List (Markup × Markup))
  | alias (anchor : Nat)
deriving Inhabited

namespace Markup

/-- What a missing node stands for. -/
def absent : Markup :=
  .scalar none none .plain ""

/-! ## Properties -/

/-- The tokens to come, the anchored names with their numbers, and the tag
handles. -/
structure Reader where
  tokens : List Token
  names : List (String × Nat)
  handles : List (String × String)

abbrev Read (α : Type) := StateT Reader Option α

def peek : Read Token := do
  match (← get).tokens with
  | token :: _ => pure token
  | [] => failure

def advance : Read Unit :=
  modify fun r => { r with tokens := r.tokens.drop 1 }

/-- The tag that a handle and a suffix write. -/
def resolveTag (handle suffix : String) : Read String := do
  if handle = "" then pure suffix
  else
    match (← get).handles.lookup handle with
    | some expansion => pure (expansion ++ suffix)
    | none => failure

def readTag? : Read (Option String) := do
  match ← peek with
  | .tag handle suffix => do
    advance
    some <$> resolveTag handle suffix
  | _ => pure none

def readAnchor? : Read (Option String) := do
  match ← peek with
  | .anchor name => do
    advance
    pure (some name)
  | _ => pure none

/-- The anchor and the tag of a node, in either order. -/
def readProperties : Read (Option String × Option String) := do
  match ← readAnchor? with
  | some name => do
    let tag ← readTag?
    pure (some name, tag)
  | none => do
    match ← readTag? with
    | some tag => do
      let anchor ← readAnchor?
      pure (anchor, some tag)
    | none => pure (none, none)

/-- Gives an anchored name the number of names anchored before. -/
def register : Option String → Read (Option Nat)
  | none => pure none
  | some name => do
    let r ← get
    let number := r.names.length
    set { r with names := (name, number) :: r.names.filter (·.1 ≠ name) }
    pure (some number)

def readAlias (name : String) : Read Markup := do
  match (← get).names.lookup name with
  | some number => pure (.alias number)
  | none => failure

/-! ## Nodes -/

def endsBlockItem : Token → Bool
  | .blockEntry | .blockEnd => true
  | _ => false

def endsIndentlessItem : Token → Bool
  | .blockEntry | .key | .value | .blockEnd => true
  | _ => false

def endsBlockEntry : Token → Bool
  | .key | .value | .blockEnd => true
  | _ => false

mutual

/-- A node. Block collections start only where blocks may, a sequence without
indentation only as part of a mapping. -/
def readNode (steps : Nat) (block indentless : Bool) : Read Markup := do
  match steps with
  | 0 => failure
  | steps + 1 =>
    match ← peek with
    | .alias name => do
      advance
      readAlias name
    | _ => do
      let (anchor, tag) ← readProperties
      match ← peek with
      | .blockEntry =>
        if indentless then do
          let anchor ← register anchor
          .sequence anchor tag <$> readIndentlessItems steps
        else unmarked anchor tag
      | .scalar style text => do
        advance
        let anchor ← register anchor
        pure (.scalar anchor (if tag = some "!" then none else tag) style text)
      | .flowSequence => do
        advance
        let anchor ← register anchor
        .sequence anchor tag <$> readFlowItems steps true
      | .flowMapping => do
        advance
        let anchor ← register anchor
        .mapping anchor tag <$> readFlowEntries steps true
      | .blockSequence =>
        if block then do
          advance
          let anchor ← register anchor
          .sequence anchor tag <$> readBlockItems steps
        else unmarked anchor tag
      | .blockMapping =>
        if block then do
          advance
          let anchor ← register anchor
          .mapping anchor tag <$> readBlockEntries steps
        else unmarked anchor tag
      | _ => unmarked anchor tag
where
  /-- A node that is nothing but its properties. -/
  unmarked (anchor tag : Option String) : Read Markup := do
    if anchor.isNone && tag.isNone then failure
    else pure (.scalar (← register anchor) tag .plain "")

def readBlockItems (steps : Nat) : Read (List Markup) := do
  match steps with
  | 0 => failure
  | steps + 1 =>
    match ← peek with
    | .blockEntry => do
      advance
      let item ←
        if endsBlockItem (← peek) then pure absent
        else readNode steps true false
      return item :: (← readBlockItems steps)
    | .blockEnd => do
      advance
      pure []
    | _ => failure

def readIndentlessItems (steps : Nat) : Read (List Markup) := do
  match steps with
  | 0 => failure
  | steps + 1 =>
    match ← peek with
    | .blockEntry => do
      advance
      let item ←
        if endsIndentlessItem (← peek) then pure absent
        else readNode steps true false
      return item :: (← readIndentlessItems steps)
    | _ => pure []

def readBlockEntries (steps : Nat) : Read (List (Markup × Markup)) := do
  match steps with
  | 0 => failure
  | steps + 1 =>
    match ← peek with
    | .key => do
      advance
      let key ←
        if endsBlockEntry (← peek) then pure absent
        else readNode steps true true
      let value ← match ← peek with
        | .value => do
          advance
          if endsBlockEntry (← peek) then
            pure absent
          else
            readNode steps true true
        | _ => pure absent
      return (key, value) :: (← readBlockEntries steps)
    | .blockEnd => do
      advance
      pure []
    | _ => failure

/-- The items of a flow sequence that are still to come. An item with a key is a
mapping of one entry. -/
def readFlowItems (steps : Nat) (first : Bool) : Read (List Markup) := do
  match steps with
  | 0 => failure
  | steps + 1 =>
    match ← peek with
    | .flowSequenceEnd => do
      advance
      pure []
    | token => do
      if !first then
        if token = .flowEntry then advance else failure
      match ← peek with
      | .flowSequenceEnd => do
        advance
        pure []
      | .key => do
        advance
        let key ← match ← peek with
          | .value | .flowEntry | .flowSequenceEnd => do
            advance
            pure absent
          | _ => readNode steps false false
        let value ← match ← peek with
          | .value => do
            advance
            match ← peek with
            | .flowEntry | .flowSequenceEnd => pure absent
            | _ => readNode steps false false
          | _ => pure absent
        return .mapping none none [(key, value)] ::
          (← readFlowItems steps false)
      | _ => do
        let item ← readNode steps false false
        return item :: (← readFlowItems steps false)

/-- The entries of a flow mapping that are still to come. -/
def readFlowEntries
    (steps : Nat) (first : Bool) :
    Read (List (Markup × Markup)) := do
  match steps with
  | 0 => failure
  | steps + 1 =>
    match ← peek with
    | .flowMappingEnd => do
      advance
      pure []
    | token => do
      if !first then
        if token = .flowEntry then advance else failure
      match ← peek with
      | .flowMappingEnd => do
        advance
        pure []
      | .key => do
        advance
        let key ← match ← peek with
          | .value | .flowEntry | .flowMappingEnd => pure absent
          | _ => readNode steps false false
        let value ← match ← peek with
          | .value => do
            advance
            match ← peek with
            | .flowEntry | .flowMappingEnd => pure absent
            | _ => readNode steps false false
          | _ => pure absent
        return (key, value) :: (← readFlowEntries steps false)
      | _ => do
        let key ← readNode steps false false
        return (key, absent) :: (← readFlowEntries steps false)

end

/-! ## Documents -/

/-- The directives in front of a document: at most one version, and no handle
twice. -/
def readDirectives
    (versioned : Bool) (declared : List String) :
    List Token → Option (List (String × String) × List Token)
  | .version major minor :: rest =>
    if versioned || major ≠ 1 || (minor ≠ 1 && minor ≠ 2) then
      none
    else
      readDirectives true declared rest
  | .handle name expansion :: rest =>
    if declared.contains name then none
    else
      (readDirectives versioned (name :: declared) rest).map
        fun (handles, rest) => ((name, expansion) :: handles, rest)
  | rest => some ([], rest)

def commonHandles : List (String × String) :=
  [("!", "!"), ("!!", "tag:yaml.org,2002:")]

/-- The content of the document that the tokens start with, and what follows
it. -/
def readContent
    (handles : List (String × String)) (tokens : List Token) :
    Option (Markup × List Token) :=
  let reader : Reader := ⟨tokens, [], handles ++ commonHandles⟩
  ((readNode (3 * tokens.length + 3) true false).run reader).map
    fun (markup, reader) => (markup, reader.tokens)

/-- The node of the one document among the tokens; an empty text has none. -/
def ofTokens? (tokens : List Token) : Option (Option Markup) := do
  let found ← match tokens with
    | [.streamEnd] => pure none
    | _ => do
      let (handles, rest) ← readDirectives false [] tokens
      match rest with
      | .documentStart :: rest =>
        match rest with
        | .version .. :: _ | .handle .. :: _ | .documentStart :: _
        | .documentEnd :: _ | .streamEnd :: _ => pure (some (absent, rest))
        | rest => some <$> readContent handles rest
      | rest =>
          if rest.length = tokens.length then
            some <$> readContent [] tokens
          else
            failure
  match found with
  | none => pure none
  | some (markup, rest) =>
    match rest.dropWhile (· = .documentEnd) with
    | [.streamEnd] => pure (some markup)
    | _ => failure

/-! ## Views -/

mutual

/-- The anchored nodes with their numbers, in the order in which they start. -/
def anchored : Markup → List (Nat × Markup)
  | .alias _ => []
  | .scalar anchor tag style text =>
      named anchor (.scalar anchor tag style text)
  | .sequence anchor tag items =>
      named anchor (.sequence anchor tag items) ++ anchoredItems items
  | .mapping anchor tag entries =>
      named anchor (.mapping anchor tag entries) ++ anchoredEntries entries
where
  named : Option Nat → Markup → List (Nat × Markup)
    | some number, markup => [(number, markup)]
    | none, _ => []

def anchoredItems : List Markup → List (Nat × Markup)
  | [] => []
  | item :: rest => anchored item ++ anchoredItems rest

def anchoredEntries : List (Markup × Markup) → List (Nat × Markup)
  | [] => []
  | (key, value) :: rest =>
      anchored key ++ anchored value ++ anchoredEntries rest

end

mutual

/-- A scalar or alias counts once, a collection for its start and its end. -/
def size : Markup → Nat
  | .alias _ => 1
  | .scalar .. => 1
  | .sequence _ _ items => 2 + sizeItems items
  | .mapping _ _ entries => 2 + sizeEntries entries

def sizeItems : List Markup → Nat
  | [] => 0
  | item :: rest => size item + sizeItems rest

def sizeEntries : List (Markup × Markup) → Nat
  | [] => 0
  | (key, value) :: rest => size key + size value + sizeEntries rest

end

/-- The node that a text holds; none twice over if the text is malformed. -/
def ofText? (text : String) : Option (Option Markup) :=
  (tokens? text).bind ofTokens?

end Markup

end ConfigTree.Yaml
