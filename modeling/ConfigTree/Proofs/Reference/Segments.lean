import ConfigTree.Proofs.FileSystem.Names
import ConfigTree.Reference
import Mathlib.Data.List.TakeWhile

/-!
# Segments of package references

Main statement: the name of an accepted package reference is made of names that
entries can have, and no piece between the slashes of its subpath climbs
(`exists_segments_of_classify`).
-/

namespace ConfigTree.Reference

private theorem cut_fst (text : List Char) :
    (cut text).1 = text.takeWhile (· ≠ '/') := by
  unfold cut
  split
  · rename_i whole
    have split := List.takeWhile_append_dropWhile (p := (· ≠ '/')) (l := text)
    rw [whole, List.append_nil] at split
    exact split.symm
  · rfl

private theorem slash_not_mem_cut (text : List Char) :
    '/' ∉ (cut text).1 := by
  rw [cut_fst]
  intro member
  have kept := List.mem_takeWhile_imp member
  simp at kept

theorem ofSegments_eq_ok_iff
    {segments : List (List Char)}
    {subpath : List Char}
    {reference : Reference} :
    ofSegments segments subpath = .ok reference ↔
      (∀ segment ∈ segments, segment ≠ [] ∧ isDots segment = false) ∧
        segments.head? ≠ some ['@'] ∧
        ['.', '.'] ∉ subpath.splitOn '/' ∧
        reference =
          .package (String.ofList (['/'].intercalate segments))
            (String.ofList subpath) := by
  unfold ofSegments
  by_cases empty : segments.any (·.isEmpty) || segments.head? = some ['@']
  · rw [if_pos empty]
    constructor
    · intro accepted
      cases accepted
    · intro given
      obtain ⟨all, notAlone, _⟩ := given
      rcases Bool.or_eq_true_iff.mp empty with missing | alone
      · obtain ⟨segment, member, none⟩ := List.any_eq_true.mp missing
        exact absurd (List.isEmpty_iff.mp none) (all segment member).1
      · exact absurd (by simpa using alone) notAlone
  · rw [if_neg empty]
    by_cases dots : segments.any isDots
    · rw [if_pos dots]
      constructor
      · intro accepted
        cases accepted
      · intro given
        obtain ⟨all, _⟩ := given
        obtain ⟨segment, member, found⟩ := List.any_eq_true.mp dots
        rw [(all segment member).2] at found
        cases found
    · rw [if_neg dots]
      by_cases leaves : (subpath.splitOn '/').contains ['.', '.']
      · rw [if_pos leaves]
        constructor
        · intro accepted
          cases accepted
        · intro given
          obtain ⟨_, _, stays, _⟩ := given
          exact absurd (List.contains_iff_mem.mp leaves) stays
      · rw [if_neg leaves]
        constructor
        · intro accepted
          cases accepted
          refine ⟨fun segment member => ⟨?_, ?_⟩, ?_, ?_, rfl⟩
          · intro none
            subst none
            apply empty
            apply Bool.or_eq_true_iff.mpr
            exact Or.inl (List.any_eq_true.mpr ⟨[], member, rfl⟩)
          · apply Bool.eq_false_iff.mpr
            intro found
            exact dots (List.any_eq_true.mpr ⟨segment, member, found⟩)
          · intro alone
            apply empty
            apply Bool.or_eq_true_iff.mpr
            exact Or.inr (by simpa using alone)
          · intro member
            exact leaves (List.contains_iff_mem.mpr member)
        · intro given
          obtain ⟨_, _, _, rfl⟩ := given
          rfl

/-- The segments of an accepted text, none of them with a slash in it. -/
theorem exists_segments_of_ofPackageText
    {text : List Char} {reference : Reference}
    (accepted : ofPackageText text = .ok reference) :
    ∃ segments subpath, segments ≠ [] ∧ (∀ segment ∈ segments, '/' ∉ segment) ∧
      ofSegments segments subpath = .ok reference := by
  unfold ofPackageText at accepted
  split at accepted
  · cases accepted
  · split at accepted
    · cases accepted
    · simp only at accepted
      have first := slash_not_mem_cut text
      split at accepted
      · split at accepted
        · cases accepted
        · rename_i rest _
          have second := slash_not_mem_cut rest
          exact ⟨_, _, by simp, by simpa using ⟨first, second⟩, accepted⟩
      · exact ⟨_, _, by simp, by simpa using first, accepted⟩

private theorem ofPackageText_of_classify
    {value : String} {reference : Reference}
    (accepted : classify value = .ok (some reference)) :
    reference = .relative value ∨
      ∃ text, ofPackageText text = .ok reference := by
  unfold classify at accepted
  simp only at accepted
  split at accepted
  · cases accepted
    exact Or.inl rfl
  · split at accepted
    · split at accepted
      · rename_i rest _
        cases parsed : ofPackageText rest with
        | error reason =>
            rw [parsed] at accepted
            cases accepted
        | ok found =>
            rw [parsed] at accepted
            cases accepted
            exact Or.inr ⟨rest, parsed⟩
      · cases accepted
    · cases accepted

private theorem isEntryName_ofList
    {segment : List Char}
    (nonempty : segment ≠ [])
    (plain : isDots segment = false)
    (unseparated : '/' ∉ segment) :
    IsEntryName (String.ofList segment) := by
  have ofText :
      ∀ text : String,
        String.ofList segment = text → segment = text.toList := by
    intro text same
    subst same
    rw [String.toList_ofList]
  refine ⟨?_, ?_, ?_, by rwa [String.toList_ofList]⟩
  · intro none
    exact nonempty (ofText "" none)
  · intro dot
    rw [ofText "." dot] at plain
    exact absurd plain (by decide)
  · intro dots
    rw [ofText ".." dots] at plain
    exact absurd plain (by decide)

theorem dots_mem_steps_iff (subpath : String) :
    ".." ∈ FileSystem.steps subpath ↔
      ['.', '.'] ∈ subpath.toList.splitOn '/' := by
  unfold FileSystem.steps
  constructor
  · intro member
    obtain ⟨chars, among, same⟩ := List.mem_map.mp member
    have dots : chars = ['.', '.'] := by
      rw [← String.toList_ofList (l := chars), same]
      rfl
    exact dots ▸ among
  · intro member
    exact List.mem_map.mpr ⟨_, member, rfl⟩

/-- The name of an accepted package reference is made of names that entries can
have, and no piece between the slashes of its subpath climbs. -/
theorem exists_segments_of_classify
    {value name subpath : String}
    (accepted : classify value = .ok (some (.package name subpath))) :
    ∃ segments, segments ≠ [] ∧ (∀ segment ∈ segments, IsEntryName segment) ∧
      name = "/".intercalate segments ∧ ".." ∉ FileSystem.steps subpath := by
  rcases ofPackageText_of_classify accepted with relative | ⟨text, parsed⟩
  · cases relative
  · obtain ⟨segments, way, nonempty, unseparated, made⟩ :=
      exists_segments_of_ofPackageText parsed
    obtain ⟨all, _, stays, same⟩ := ofSegments_eq_ok_iff.mp made
    injection same with nameSame subpathSame
    refine ⟨segments.map String.ofList, by simpa using nonempty, ?_, ?_, ?_⟩
    · intro segment member
      obtain ⟨chars, among, rfl⟩ := List.mem_map.mp member
      exact isEntryName_ofList (all chars among).1 (all chars among).2
        (unseparated chars among)
    · rw [nameSame]
      apply String.toList_inj.mp
      rw [String.toList_ofList, String.toList_intercalate, List.map_map]
      simp [Function.comp_def]
    · rw [dots_mem_steps_iff, subpathSame, String.toList_ofList]
      exact stays

end ConfigTree.Reference
