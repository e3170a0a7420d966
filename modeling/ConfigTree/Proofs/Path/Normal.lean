import ConfigTree.Proofs.Path.Climbing
import ConfigTree.Proofs.Path.Texts

/-!
# Texts in normal form

The text of a path is a dot, a bare root, or names with single slashes between
them, where only a relative text climbs and does so before it names anything.
Cleaning brings every text into this form, and the texts of this form are the
ones that it leaves alone (`isNormal_iff`). Main statement: `cleaned_is_normal`.
-/

namespace ConfigTree.Path

/-! ## The names of a trail -/

/-- A name of a trail that does not climb is one that an entry can have. -/
theorem isEntryName_of_mem_trail {anchor : Anchor} :
    ∀ {trail : List String}, IsTrail anchor trail →
      ∀ name ∈ trail, name ≠ ".." → IsEntryName name ∧ '\\' ∉ name.toList
  | [], _, _, member, _ => by cases member
  | first :: above, all, name, member, notDots => by
      rcases List.mem_cons.mp member with here | earlier
      · subst here
        obtain ⟨nonempty, notDot, unseparated⟩ := all.1
        have noSlash : '/' ∉ name.toList :=
          fun slash => absurd (unseparated '/' slash) (by decide)
        have noBackslash : '\\' ∉ name.toList :=
          fun backslash => absurd (unseparated '\\' backslash) (by decide)
        exact ⟨⟨nonempty, notDot, notDots, noSlash⟩, noBackslash⟩
      · exact isEntryName_of_mem_trail all.2.2 name earlier notDots

/-- Only a relative trail climbs. -/
theorem dots_not_mem_of_rooted {anchor : Anchor} (rooted : anchor ≠ .relative) :
    ∀ {trail : List String}, IsTrail anchor trail → ".." ∉ trail
  | [], _ => List.not_mem_nil
  | name :: above, all => by
      intro member
      rcases List.mem_cons.mp member with here | earlier
      · exact rooted (all.2.1 here.symm).1
      · exact dots_not_mem_of_rooted rooted all.2.2 earlier

/-- Names that an entry can have go on with any trail. -/
theorem isTrail_append
    {anchor : Anchor} {above : List String} (all : IsTrail anchor above) :
    ∀ {names : List String},
      (∀ name ∈ names, IsEntryName name ∧ '\\' ∉ name.toList) →
        IsTrail anchor (names ++ above)
  | [], _ => all
  | name :: rest, proper => by
      obtain ⟨⟨here, plain⟩, later⟩ := List.forall_mem_cons.mp proper
      have unseparated : ∀ c ∈ name.toList, isSeparator c = false := by
        have alone := pieces_name here plain
        exact fun c =>
          unseparated_of_mem_pieces (alone ▸ List.mem_singleton_self name) c
      exact ⟨⟨here.1, here.2.1, unseparated⟩,
        fun dots => absurd dots here.2.2.1, isTrail_append all later⟩

theorem isTrail_of_names
    {anchor : Anchor} {names : List String}
    (all : ∀ name ∈ names, IsEntryName name ∧ '\\' ∉ name.toList) :
    IsTrail anchor names := by
  have nothing : IsTrail anchor [] := trivial
  rw [← List.append_nil names]
  exact isTrail_append nothing all

private theorem isTrail_replicate_dots :
    ∀ levels, IsTrail .relative (List.replicate levels "..")
  | 0 => trivial
  | levels + 1 => by
      have unseparated : ∀ c ∈ "..".toList, isSeparator c = false := by
        simp [isSeparator]
      rw [List.replicate_succ]
      refine ⟨⟨by decide, by decide, unseparated⟩, fun _ => ⟨rfl, ?_⟩,
        isTrail_replicate_dots levels⟩
      exact fun other member => List.eq_of_mem_replicate member

/-- A trail climbs first, if it climbs at all. -/
theorem eq_entered_append_climbs {anchor : Anchor} :
    ∀ {trail : List String}, IsTrail anchor trail →
      trail = trail.filter (· ≠ "..") ++ List.replicate (trail.count "..") ".."
  | [], _ => rfl
  | name :: above, all => by
      have inner := eq_entered_append_climbs all.2.2
      by_cases dots : name = ".."
      · subst dots
        obtain ⟨_, others⟩ := all.2.1 rfl
        have nothing : above.filter (· ≠ "..") = [] :=
          List.filter_eq_nil_iff.mpr fun other member =>
            by simp [others other member]
        rw [nothing, List.nil_append] at inner
        rw [List.filter_cons_of_neg (by simp), nothing, List.count_cons_self,
          List.replicate_succ, List.nil_append, ← inner]
      · rw [List.filter_cons_of_pos (by simpa using dots),
          List.count_cons_of_ne dots, List.cons_append, ← inner]

theorem reverse_eq_climbs_append_entered
    {anchor : Anchor} {trail : List String} (all : IsTrail anchor trail) :
    trail.reverse =
      List.replicate (trail.count "..") ".." ++
        (trail.filter (· ≠ "..")).reverse := by
  have parts := congrArg List.reverse (eq_entered_append_climbs all)
  rwa [List.reverse_append, List.reverse_replicate] at parts

/-! ## Normal form -/

/-- The form that cleaning gives to a text: a dot, a bare root, or one or more
names with single slashes between them. Of the names only the first ones of a
relative text are two dots. -/
inductive IsNormal : String → Prop where
  | dot : IsNormal "."
  | root : IsNormal "/"
  | share : IsNormal "//"
  | relative
      (climbs : Nat)
      {names : List String}
      (named : List.replicate climbs ".." ++ names ≠ [])
      (proper : ∀ name ∈ names, IsEntryName name ∧ '\\' ∉ name.toList) :
      IsNormal ("/".intercalate (List.replicate climbs ".." ++ names))
  | rooted
      {anchor : Anchor}
      {names : List String}
      (isRooted : anchor ≠ .relative)
      (named : names ≠ [])
      (proper : ∀ name ∈ names, IsEntryName name ∧ '\\' ∉ name.toList) :
      IsNormal (anchor.text ++ "/".intercalate names)

private theorem isNormal_text (path : Path) : IsNormal path.text := by
  obtain ⟨anchor, trail, all⟩ := path
  cases trail with
  | nil =>
      cases anchor with
      | relative => exact .dot
      | root => exact .root
      | share => exact .share
  | cons name above =>
      have named : (name :: above).reverse ≠ [] := by simp
      have proper := isEntryName_of_mem_trail all
      by_cases rooted : anchor = .relative
      · subst rooted
        have split := reverse_eq_climbs_append_entered all
        have whole :
            (⟨.relative, name :: above, all⟩ : Path).text =
              "/".intercalate (name :: above).reverse :=
          String.empty_append
        rw [whole, split]
        apply IsNormal.relative
        · rwa [← split]
        · intro other member
          obtain ⟨among, notDots⟩ :=
            List.mem_filter.mp (List.mem_reverse.mp member)
          exact proper other among (by simpa using notDots)
      · rw [text_of_rooted rooted]
        apply IsNormal.rooted rooted named
        intro other member
        have among := List.mem_reverse.mp member
        exact proper other among fun dots =>
          dots_not_mem_of_rooted rooted all (dots ▸ among)

/-- Every text in normal form is the text of a path. -/
theorem exists_path_of_isNormal
    {text : String} (normal : IsNormal text) :
    ∃ path : Path, path.text = text := by
  cases normal with
  | dot => exact ⟨ofAnchor .relative, rfl⟩
  | root => exact ⟨ofAnchor .root, rfl⟩
  | share => exact ⟨ofAnchor .share, rfl⟩
  | @relative climbs names named proper =>
      have entered :
          ∀ name ∈ names.reverse, IsEntryName name ∧ '\\' ∉ name.toList :=
        fun name member => proper name (List.mem_reverse.mp member)
      have all := isTrail_append (isTrail_replicate_dots climbs) entered
      have back :
          (names.reverse ++ List.replicate climbs "..").reverse =
            List.replicate climbs ".." ++ names := by
        rw [List.reverse_append, List.reverse_replicate, List.reverse_reverse]
      have nonempty : names.reverse ++ List.replicate climbs ".." ≠ [] := by
        apply List.reverse_ne_nil_iff.mp
        rwa [back]
      refine ⟨⟨.relative, names.reverse ++ List.replicate climbs "..", all⟩, ?_⟩
      rw [text_of_named nonempty, back]
      exact String.empty_append
  | @rooted anchor names isRooted named proper =>
      have all : IsTrail anchor names.reverse :=
        isTrail_of_names fun name member =>
          proper name (List.mem_reverse.mp member)
      refine ⟨⟨anchor, names.reverse, all⟩, ?_⟩
      rw [text_of_rooted isRooted, List.reverse_reverse]

/-- Cleaning leaves exactly the texts in normal form alone. -/
theorem isNormal_iff
    {text : String} :
    IsNormal text ↔ (ofText text).text = text := by
  constructor
  · intro normal
    obtain ⟨path, same⟩ := exists_path_of_isNormal normal
    rw [← same, ofText_text]
  · intro unchanged
    rw [← unchanged]
    exact isNormal_text (ofText text)

instance (text : String) : Decidable (IsNormal text) :=
  decidable_of_iff ((ofText text).text = text) isNormal_iff.symm

example : IsNormal "../../conf/C:" ∧ ¬IsNormal "conf/../C:" ∧
    ¬IsNormal "/.." := by
  decide

/-! ## Moving on -/

/-- A step from a path to another one. -/
inductive Move where
  | join (segment : String)
  | parent

/-- The path that a step leads to. A path without a parent stays where it is. -/
def move (path : Path) : Move → Path
  | .join segment => path.join segment
  | .parent => path.parent?.getD path

/-- Cleaning brings every text into normal form and leaves the texts in normal
form alone, so that cleaning again changes nothing; and whatever steps are taken
from there by joining texts and going to parents, the path's text is in normal
form all the time. -/
theorem cleaned_is_normal
    (text : String) (moves : List Move) :
    IsNormal (ofText text).text ∧
      (IsNormal text ↔ (ofText text).text = text) ∧
      ofText (ofText text).text = ofText text ∧
      IsNormal (moves.foldl move (ofText text)).text :=
  ⟨isNormal_text _, isNormal_iff, ofText_text _, isNormal_text _⟩

end ConfigTree.Path
