import ConfigTree.Path.Lemmas
import Mathlib.Logic.Function.Iterate

/-!
# Climbing out of a path

What a joined text does to a path is known from the text alone: it climbs some
levels first and then enters some names. Main statements: the trail of a joined
path (`trail_join`), and when the names of the path are still there
(`trail_suffix_join_iff`).
-/

namespace ConfigTree.Path

/-- One level up from the end of a trail. -/
def up (anchor : Anchor) (trail : List String) : List String :=
  step anchor trail ".."

/-- A trail that has climbed as far as it can climbs further. -/
@[simp]
theorem up_dots :
    ∀ levels,
      up .relative (List.replicate levels "..") =
        List.replicate (levels + 1) ".."
  | 0 => by decide
  | levels + 1 => by simp [up, step, List.replicate_succ]

/-- The trail of a path so many levels up. -/
def climb (path : Path) (levels : Nat) : List String :=
  (up path.anchor)^[levels] path.trail

/-- How many levels a text climbs above the place it is taken from. -/
def climbs (segment : String) : Nat :=
  ((ofAnchor .relative).join segment).trail.count ".."

/-- The names that a text enters after it has climbed, innermost first. -/
def entered (segment : String) : List String :=
  ((ofAnchor .relative).join segment).trail.filter (· ≠ "..")

/-! ## One text on many starts -/

/-- Where a relative trail leads when it is taken from the end of another
trail. -/
def retrace (anchor : Anchor) (trail relative : List String) : List String :=
  relative.filter (· ≠ "..") ++ (up anchor)^[relative.count ".."] trail

private theorem retrace_cons_dots
    (anchor : Anchor) (trail above : List String)
    (others : ∀ other ∈ above, other = "..") :
    retrace anchor trail (".." :: above) =
      up anchor (retrace anchor trail above) := by
  have noneKept : above.filter (· ≠ "..") = [] := by
    apply List.filter_eq_nil_iff.mpr
    intro other member
    simp [others other member]
  unfold retrace
  rw [List.count_cons_self, Function.iterate_succ_apply', noneKept,
    List.filter_cons_of_neg (by simp), noneKept, List.nil_append,
    List.nil_append]

theorem retrace_cons_name
    (anchor : Anchor) (trail : List String) {name : String}
    {above : List String} (plain : name ≠ "..") :
    retrace anchor trail (name :: above) =
      name :: retrace anchor trail above := by
  unfold retrace
  rw [List.count_cons_of_ne plain,
    List.filter_cons_of_pos (by simpa using plain), List.cons_append]

/-- Taking one more piece commutes with taking a relative trail from
elsewhere. -/
theorem step_retrace
    {anchor : Anchor} {trail relative : List String}
    (all : IsTrail .relative relative) (piece : String) :
    step anchor (retrace anchor trail relative) piece =
      retrace anchor trail (step .relative relative piece) := by
  by_cases nothing : piece = "" ∨ piece = "."
  · simp only [step, if_pos nothing]
  · by_cases dots : piece = ".."
    · subst dots
      cases relative with
      | nil =>
          have one : step .relative [] ".." = [".."] := by decide
          rw [one, retrace_cons_dots anchor trail [] (by simp)]
          rfl
      | cons last above =>
          obtain ⟨_, climbing, _⟩ := all
          by_cases again : last = ".."
          · obtain ⟨_, others⟩ := climbing again
            subst again
            have further :
                step .relative (".." :: above) ".." =
                  ".." :: ".." :: above := by
              simp [step]
            rw [further, retrace_cons_dots anchor trail (".." :: above)]
            · rfl
            · intro other member
              rcases List.mem_cons.mp member with first | later
              · exact first
              · exact others other later
          · rw [retrace_cons_name anchor trail again]
            by_cases drive : last.toList.getLast? = some ':'
            · simp only [step, if_neg nothing, if_pos, if_pos drive]
              rw [retrace_cons_name anchor trail again]
            · simp only [step, if_neg nothing, if_pos, if_neg drive,
                if_neg again]
    · have entering : ∀ (start : Anchor) (names : List String),
          step start names piece = piece :: names := by
        intro start names
        simp only [step, if_neg nothing, if_neg dots]
      rw [entering, entering, retrace_cons_name anchor trail dots]

theorem foldl_step_retrace
    {anchor : Anchor} {trail : List String} :
    ∀ (steps : List String) {relative : List String},
      IsTrail .relative relative →
      (∀ piece ∈ steps, ∀ c ∈ piece.toList, isSeparator c = false) →
      steps.foldl (step anchor) (retrace anchor trail relative) =
        retrace anchor trail (steps.foldl (step .relative) relative)
  | [], _, _, _ => rfl
  | piece :: rest, relative, all, unseparated => by
      have pieceUnseparated := unseparated piece (List.mem_cons_self ..)
      have restUnseparated :
          ∀ other ∈ rest, ∀ c ∈ other.toList, isSeparator c = false :=
        fun other member => unseparated other (List.mem_cons_of_mem _ member)
      rw [List.foldl_cons, List.foldl_cons, step_retrace all]
      exact foldl_step_retrace rest
        (isTrail_step all pieceUnseparated) restUnseparated

/-- A joined path is the path so many levels up, and the entered names below
it. -/
theorem trail_join (path : Path) (segment : String) :
    (path.join segment).trail =
      entered segment ++ path.climb (climbs segment) := by
  have nothing : IsTrail .relative [] := trivial
  have folded :
      (pieces segment).foldl (step path.anchor)
            (retrace path.anchor path.trail []) =
          retrace path.anchor path.trail
            ((pieces segment).foldl (step .relative) []) :=
    foldl_step_retrace (pieces segment) nothing fun _ =>
      unseparated_of_mem_pieces
  exact folded

/-! ## Which names are still there -/

/-- A text comes back to a path if climbing takes none of its names back, or if
the text enters the names again that it has taken back. -/
def ComesBack (path : Path) (segment : String) : Prop :=
  path.trail <:+ path.climb (climbs segment) ∨
    ∃ left, path.trail = left ++ path.climb (climbs segment) ∧
      left <:+ entered segment

theorem trail_suffix_join_iff (path : Path) (segment : String) :
    path.trail <:+ (path.join segment).trail ↔ path.ComesBack segment := by
  rw [trail_join, ComesBack]
  constructor
  · intro kept
    have outside :
        path.climb (climbs segment) <:+
          entered segment ++ path.climb (climbs segment) :=
      List.suffix_append _ _
    rcases List.suffix_or_suffix_of_suffix kept outside with
      inside | ⟨left, split⟩
    · exact Or.inl inside
    · refine Or.inr ⟨left, split.symm, ?_⟩
      rw [← split] at kept
      exact List.suffix_append_self_iff.mp kept
  · intro either
    rcases either with inside | ⟨left, split, again⟩
    · exact inside.trans (List.suffix_append _ _)
    · rw [split]
      exact List.suffix_append_self_iff.mpr again

private theorem dots_not_mem_step
    {anchor : Anchor} {trail : List String} {piece : String}
    (absent : ".." ∉ trail) (plain : piece ≠ "..") :
    ".." ∉ step anchor trail piece := by
  unfold step
  by_cases nothing : piece = "" ∨ piece = "."
  · rw [if_pos nothing]
    exact absent
  · rw [if_neg nothing, if_neg plain]
    intro member
    rcases List.mem_cons.mp member with same | earlier
    · exact plain same.symm
    · exact absent earlier

private theorem dots_not_mem_foldl_step
    {anchor : Anchor} :
    ∀ (steps : List String) {trail : List String},
      ".." ∉ trail → ".." ∉ steps → ".." ∉ steps.foldl (step anchor) trail
  | [], _, absent, _ => absent
  | piece :: rest, trail, absent, plain => by
      have pieceNe : piece ≠ ".." :=
        fun same => plain (same ▸ List.mem_cons_self ..)
      have restPlain : ".." ∉ rest :=
        fun member => plain (List.mem_cons_of_mem _ member)
      exact dots_not_mem_foldl_step rest (dots_not_mem_step absent pieceNe)
        restPlain

theorem comesBack_of_dots_not_mem
    (path : Path) {segment : String} (plain : ".." ∉ pieces segment) :
    path.ComesBack segment := by
  have noClimb : climbs segment = 0 :=
    List.count_eq_zero.mpr
      (dots_not_mem_foldl_step (pieces segment) List.not_mem_nil plain)
  have same : path.climb (climbs segment) = path.trail := by
    rw [noClimb]
    rfl
  rw [ComesBack, same]
  exact Or.inl List.suffix_rfl

end ConfigTree.Path
