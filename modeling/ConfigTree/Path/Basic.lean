/-!
# Paths

A path is cleaned when it is made, by looking at its text alone: both slashes
separate names, empty names and `.` are dropped, and `..` takes back the name
before it. What the names mean in a file system does not matter here.
-/

namespace ConfigTree

/-- Where a path starts. Two leading separators, no more, lead to a share. -/
inductive Anchor where
  | relative
  | root
  | share
deriving DecidableEq, Repr, Inhabited

def Anchor.text : Anchor → String
  | .relative => ""
  | .root => "/"
  | .share => "//"

def isSeparator (c : Char) : Bool :=
  c = '/' || c = '\\'

/-- The names of a path, innermost first. Climbing is possible only from a
relative path, and comes first. -/
def IsTrail (anchor : Anchor) : List String → Prop
  | [] => True
  | name :: above =>
    (name ≠ "" ∧ name ≠ "." ∧ ∀ c ∈ name.toList, isSeparator c = false) ∧
      (name = ".." → anchor = .relative ∧ ∀ other ∈ above, other = "..") ∧
        IsTrail anchor above

structure Path where
  anchor : Anchor
  trail : List String
  isTrail : IsTrail anchor trail
deriving DecidableEq

namespace Path

instance : Inhabited Path :=
  ⟨⟨.relative, [], trivial⟩⟩

/-! ## Cleaning -/

/-- The names between the separators of a text. -/
def pieces (text : String) : List String :=
  (text.toList.splitOnP isSeparator).map String.ofList

/-- The trail one piece further. A name that ends with a colon stands for a
drive and is never taken back. -/
def step
    (anchor : Anchor) (trail : List String) (piece : String) :
    List String :=
  if piece = "" ∨ piece = "." then trail
  else if piece = ".." then
    match trail with
    | [] => if anchor = .relative then [".."] else []
    | last :: above =>
      if last.toList.getLast? = some ':' then last :: above
      else if last = ".." then ".." :: last :: above
      else above
  else piece :: trail

theorem isTrail_tail
    {anchor : Anchor}
    {name : String}
    {above : List String}
    (all : IsTrail anchor (name :: above)) :
    IsTrail anchor above :=
  all.2.2

theorem isTrail_step
    {anchor : Anchor}
    {trail : List String}
    {piece : String}
    (all : IsTrail anchor trail)
    (unseparated : ∀ c ∈ piece.toList, isSeparator c = false) :
    IsTrail anchor (step anchor trail piece) := by
  have dots : ∀ c ∈ "..".toList, isSeparator c = false := by
    intro c member
    obtain rfl : c = '.' := by simpa using member
    rfl
  unfold step
  split
  · exact all
  · rename_i kept
    obtain ⟨nonempty, visible⟩ := not_or.mp kept
    split
    · rename_i climbs
      cases trail with
      | nil =>
        simp only
        split
        · rename_i relative
          exact ⟨⟨by decide, by decide, dots⟩, fun _ => ⟨relative, by simp⟩,
            trivial⟩
        · trivial
      | cons last above =>
        simp only
        split
        · exact all
        · split
          · rename_i again
            refine ⟨⟨by decide, by decide, dots⟩, fun _ => ?_, all⟩
            obtain ⟨relative, others⟩ := all.2.1 again
            refine ⟨relative, fun other member => ?_⟩
            rcases List.mem_cons.mp member with rfl | member
            · exact again
            · exact others other member
          · exact all.2.2
    · rename_i plain
      exact ⟨⟨nonempty, visible, unseparated⟩,
        fun climbs => absurd climbs plain, all⟩

theorem not_mem_of_mem_splitOnP {α : Type} {p : α → Bool} {piece : List α} :
    {whole : List α} → piece ∈ whole.splitOnP p → ∀ x ∈ piece, p x = false
  | [], member => by
    have same : piece = [] := by simpa using member
    simp [same]
  | first :: rest, member => by
    rw [List.splitOnP_cons_eq_if_modifyHead] at member
    split at member
    · rcases List.mem_cons.mp member with rfl | member
      · simp
      · exact not_mem_of_mem_splitOnP member
    · rename_i other
      cases parts : rest.splitOnP p with
      | nil => simp [parts] at member
      | cons head tail =>
        rw [parts, List.modifyHead_cons] at member
        have inRest : ∀ piece ∈ head :: tail, ∀ x ∈ piece, p x = false :=
          fun piece member =>
            not_mem_of_mem_splitOnP (parts ▸ member)
        rcases List.mem_cons.mp member with rfl | member
        · intro x member
          rcases List.mem_cons.mp member with rfl | member
          · exact Bool.eq_false_iff.mpr other
          · exact inRest head (List.mem_cons_self ..) x member
        · exact inRest piece (List.mem_cons_of_mem _ member)

theorem unseparated_of_mem_pieces
    {text piece : String} (member : piece ∈ pieces text) :
    ∀ c ∈ piece.toList, isSeparator c = false := by
  obtain ⟨chars, among, rfl⟩ := List.mem_map.mp member
  rw [String.toList_ofList]
  exact not_mem_of_mem_splitOnP among

private theorem isTrail_foldl {anchor : Anchor} :
    {trail : List String} → (steps : List String) → IsTrail anchor trail →
      (∀ piece ∈ steps, ∀ c ∈ piece.toList, isSeparator c = false) →
        IsTrail anchor (steps.foldl (step anchor) trail)
  | _, [], all, _ => all
  | _, piece :: rest, all, unseparated =>
    isTrail_foldl rest
      (isTrail_step all (unseparated piece (List.mem_cons_self ..)))
      fun other member => unseparated other (List.mem_cons_of_mem _ member)

def anchorOf (text : String) : Anchor :=
  match (text.toList.takeWhile isSeparator).length with
  | 0 => .relative
  | 2 => .share
  | _ => .root

/-- The path with further text behind it. Separators at the start of the text do
not matter. -/
def join (path : Path) (segment : String) : Path where
  anchor := path.anchor
  trail := (pieces segment).foldl (step path.anchor) path.trail
  isTrail :=
    isTrail_foldl (pieces segment) path.isTrail fun _ =>
      unseparated_of_mem_pieces

/-- The path that nothing follows its anchor in. -/
def ofAnchor (anchor : Anchor) : Path :=
  ⟨anchor, [], trivial⟩

/-- The path that a text writes. -/
def ofText (text : String) : Path :=
  (ofAnchor (anchorOf text)).join text

/-! ## Text -/

/-- The text of a path. A relative path without names is written as a dot. -/
def text (path : Path) : String :=
  match path.anchor, path.trail with
  | .relative, [] => "."
  | anchor, trail => anchor.text ++ "/".intercalate trail.reverse

instance : ToString Path :=
  ⟨text⟩

/-! ## Parts -/

/-- The path without its last name. What is directly under a share lies under
the root. -/
def parent? (path : Path) : Option Path :=
  match path with
  | ⟨_, [], _⟩ => none
  | ⟨.relative, [_], _⟩ => none
  | ⟨_, [_], _⟩ => some (ofAnchor .root)
  | ⟨anchor, _ :: above, isTrail⟩ => some ⟨anchor, above, isTrail_tail isTrail⟩

/-- The last name; the dot counts as one. -/
def fileName? (path : Path) : Option String :=
  match path.anchor, path.trail with
  | _, name :: _ => some name
  | .relative, [] => some "."
  | _, [] => none

/-- What follows the last dot of a name, unless the name starts there. -/
def extensionOf? (name : String) : Option String :=
  let (after, before) := name.toList.reverse.span (· ≠ '.')
  match before with
  | [] | [_] => none
  | _ => some (String.ofList after.reverse)

def extension? (path : Path) : Option String :=
  path.fileName?.bind extensionOf?

/-- Whether a text starts with one byte and a colon, as a drive is written. -/
def startsWithDrive (text : String) : Bool :=
  match text.toList with
  | letter :: ':' :: _ => letter.utf8Size = 1
  | _ => false

def isAbsolute (path : Path) : Bool :=
  path.anchor ≠ .relative || startsWithDrive path.text

end Path

end ConfigTree
