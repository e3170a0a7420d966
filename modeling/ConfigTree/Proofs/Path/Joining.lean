import ConfigTree.Proofs.Path.Texts
import Mathlib.Data.List.TakeWhile

/-!
# Joining one text after the other

A text that is joined to a path is read from where the path ends. Joining is
cleaning the path's text with the segment behind it (`ofText_joinText`), and
main statement: texts that are joined one after the other are joined like the
one text that has them with a slash between (`joining_concatenates`).
-/

namespace ConfigTree.Path

private theorem join_join (path : Path) (first second : String) :
    (path.join first).join second = path.join (first ++ "/" ++ second) := by
  have anchors :
      ((path.join first).join second).anchor =
        (path.join (first ++ "/" ++ second)).anchor :=
    rfl
  apply eq_of_parts anchors
  calc ((path.join first).join second).trail
      = (pieces second).foldl (step path.anchor)
          ((pieces first).foldl (step path.anchor) path.trail) := by
        rw [trail_join_eq_foldl, trail_join_eq_foldl path]
        rfl
    _ = (path.join (first ++ "/" ++ second)).trail := by
        rw [trail_join_eq_foldl, pieces_slash, List.foldl_append]

/-- An empty text and a dot lead nowhere. -/
theorem join_of_still
    (path : Path) {segment : String} (still : segment = "" ∨ segment = ".") :
    path.join segment = path := by
  have alone : pieces segment = [segment] := by
    rcases still with empty | dot
    · rw [empty]
      decide
    · rw [dot]
      decide
  have anchors : (path.join segment).anchor = path.anchor := rfl
  apply eq_of_parts anchors
  rw [trail_join_eq_foldl, alone, List.foldl_cons, List.foldl_nil]
  exact if_pos still

@[simp]
theorem join_dot_slash
    (directory : Path) (name : String) :
    directory.join ("./" ++ name) = directory.join name := by
  have mark : "./" = "." ++ "/" := by decide
  rw [mark, ← join_join, join_of_still directory (Or.inr rfl)]

/-! ## Separators in front -/

/-- Each separator in front of a text is one more piece, an empty one. -/
theorem pieces_append_of_separators (segment : String) :
    ∀ {run : List Char}, (∀ c ∈ run, isSeparator c = true) →
      pieces (String.ofList run ++ segment) =
        List.replicate run.length "" ++ pieces segment
  | [], _ => by
      rw [String.ofList_nil, String.empty_append]
      rfl
  | c :: rest, separators => by
      obtain ⟨separator, others⟩ := List.forall_mem_cons.mp separators
      have chars :
          (String.ofList (c :: rest) ++ segment).toList =
            c :: (String.ofList rest ++ segment).toList := by
        rw [String.toList_append, String.toList_append, String.toList_ofList,
          String.toList_ofList, List.cons_append]
      rw [pieces_of_separator chars separator, String.ofList_toList,
        pieces_append_of_separators segment others, List.length_cons,
        List.replicate_succ, List.cons_append]

private theorem join_append_of_separators
    (path : Path)
    {run : String}
    (separators : ∀ c ∈ run.toList, isSeparator c = true)
    (segment : String) :
    path.join (run ++ segment) = path.join segment := by
  have blanks : ∀ piece ∈ List.replicate run.toList.length "", piece = "" :=
    fun _ => List.eq_of_mem_replicate
  have split := pieces_append_of_separators segment separators
  have anchors :
      (path.join (run ++ segment)).anchor = (path.join segment).anchor :=
    rfl
  rw [String.ofList_toList] at split
  apply eq_of_parts anchors
  rw [trail_join_eq_foldl, trail_join_eq_foldl, split, List.foldl_append,
    foldl_step_blanks blanks]

/-- A text without the separators in front of it. -/
def behindSeparators (text : String) : String :=
  String.ofList (text.toList.dropWhile isSeparator)

private theorem not_isSeparator_of_head?_behindSeparators
    {text : String}
    {c : Char}
    (first : (behindSeparators text).toList.head? = some c) :
    isSeparator c = false := by
  have kept := List.head?_dropWhile_not isSeparator text.toList
  rw [behindSeparators, String.toList_ofList] at first
  rwa [first] at kept

@[simp]
theorem join_behindSeparators (path : Path) (segment : String) :
    path.join (behindSeparators segment) = path.join segment := by
  have split : segment =
      String.ofList (segment.toList.takeWhile isSeparator) ++
          behindSeparators segment := by
    apply String.toList_inj.mp
    rw [String.toList_append, behindSeparators, String.toList_ofList,
      String.toList_ofList, List.takeWhile_append_dropWhile]
  have separators :
      ∀ c ∈ (String.ofList (segment.toList.takeWhile isSeparator)).toList,
        isSeparator c = true := by
    intro c member
    rw [String.toList_ofList] at member
    exact List.mem_takeWhile_imp member
  have joined :=
    join_append_of_separators path separators (behindSeparators segment)
  rw [← split] at joined
  exact joined.symm

/-! ## A path's text with a segment behind it -/

section Behind

variable {rest : String}

theorem head?_ne_slash
    (plain : ∀ c, rest.toList.head? = some c → isSeparator c = false) :
    rest.toList.head? ≠ some '/' := by
  intro slash
  have first := plain '/' slash
  cases first

/-- Where a text starts is not changed by what stands behind it, if that starts
with no separator. -/
theorem anchorOf_append
    (text : String)
    (plain : ∀ c, rest.toList.head? = some c → isSeparator c = false) :
    anchorOf (text ++ rest) = anchorOf text := by
  have none : rest.toList.takeWhile isSeparator = [] := by
    cases chars : rest.toList with
    | nil => rfl
    | cons c others =>
        rw [chars] at plain
        have first := plain c rfl
        rw [List.takeWhile_cons_of_neg (by simp [first])]
  have same :
      (text ++ rest).toList.takeWhile isSeparator =
        text.toList.takeWhile isSeparator := by
    rw [String.toList_append, List.takeWhile_append, none, List.append_nil]
    split
    · rename_i whole
      exact (List.IsPrefix.eq_of_length (List.takeWhile_prefix _) whole).symm
    · rfl
  unfold anchorOf
  rw [same]

/-- Where a text starts is settled, whatever comes behind it. -/
def IsSteady (text : String) : Prop :=
  ∀ behind, anchorOf (text ++ behind) = anchorOf text

theorem IsSteady.append
    {text : String} (steady : IsSteady text) (behind : String) :
    IsSteady (text ++ behind) := by
  intro further
  rw [String.append_assoc, steady, steady]

theorem isSteady_of_mem
    {text : String}
    {c : Char}
    (member : c ∈ text.toList)
    (plain : isSeparator c = false) :
    IsSteady text := by
  have shorter :
      (text.toList.takeWhile isSeparator).length ≠ text.toList.length := by
    intro whole
    have all := List.IsPrefix.eq_of_length (List.takeWhile_prefix _) whole
    have separator := List.mem_takeWhile_imp (all.symm ▸ member)
    rw [plain] at separator
    cases separator
  intro behind
  unfold anchorOf
  rw [String.toList_append, List.takeWhile_append, if_neg shorter]

/-- More than two separators lead to the root, however many there are. -/
theorem anchorOf_of_three
    {text : String} (many : 3 ≤ (text.toList.takeWhile isSeparator).length) :
    anchorOf text = .root := by
  unfold anchorOf
  split
  · omega
  · omega
  · rfl

theorem isSteady_of_length
    {text : String} (long : 3 ≤ text.toList.length) :
    IsSteady text := by
  intro behind
  by_cases whole : (text.toList.takeWhile isSeparator).length =
    text.toList.length
  · have longer :
        3 ≤ ((text ++ behind).toList.takeWhile isSeparator).length := by
      rw [String.toList_append, List.takeWhile_append, if_pos whole,
        List.length_append]
      omega
    rw [anchorOf_of_three longer, anchorOf_of_three (whole ▸ long)]
  · unfold anchorOf
    rw [String.toList_append, List.takeWhile_append, if_neg whole]

/-- A path's text with a segment behind it starts where the path does. -/
theorem anchorOf_joinText_text
    (path : Path)
    (plain : ∀ c, rest.toList.head? = some c → isSeparator c = false) :
    anchorOf (joinText path.text rest) = path.anchor := by
  rcases joinText_cases path.text (head?_ne_slash plain) with
    ⟨joined, _⟩ | ⟨joined, nonempty, notSlash⟩
  · rw [joined, anchorOf_append _ plain, anchorOf_text]
  · have someChar : path.text.toList ≠ [] :=
      fun empty => nonempty (String.toList_eq_nil_iff.mp empty)
    have ends := List.getLast?_eq_some_getLast someChar
    have noBackslash : path.text.toList.getLast someChar ≠ '\\' := by
      intro backslash
      exact backslash_not_mem_text path (backslash ▸ List.getLast_mem someChar)
    have noSlash : path.text.toList.getLast someChar ≠ '/' := by
      intro slash
      exact notSlash (slash ▸ ends)
    have lastPlain :
        isSeparator (path.text.toList.getLast someChar) = false := by
      simp only [isSeparator, noSlash, noBackslash, decide_false, Bool.or_false]
    rw [joined, anchorOf_append _ plain,
      isSteady_of_mem (List.mem_of_getLast? ends) lastPlain, anchorOf_text]

/-- To join a segment is to clean the path's text with the segment behind it. -/
theorem ofText_joinText
    (path : Path)
    (plain : ∀ c, rest.toList.head? = some c → isSeparator c = false) :
    ofText (joinText path.text rest) = path.join rest := by
  have anchors := anchorOf_joinText_text path plain
  apply eq_of_parts anchors
  rw [trail_ofText, anchors, foldl_pieces_joinText _ _ (head?_ne_slash plain),
    foldl_pieces_text, trail_join_eq_foldl]

end Behind

/-! ## Concatenation -/

/-- Joining two texts one after the other is joining the text that has them with
a slash between, joining nothing changes nothing, and separators in front of a
segment make no difference, however many there are. A path keeps its start: no
segment makes a relative path a rooted one or a path from the root one under a
share. And to join a segment is to clean the path's text with the segment behind
it. -/
theorem joining_concatenates
    (path : Path)
    (first second : String)
    {run : String}
    (separators : ∀ c ∈ run.toList, isSeparator c = true) :
    (path.join first).join second = path.join (first ++ "/" ++ second) ∧
      path.join "" = path ∧
      path.join (run ++ first) = path.join first ∧
      anchorOf (path.join first).text = anchorOf path.text ∧
      path.join first =
        ofText (joinText path.text (behindSeparators first)) := by
  have anchors : anchorOf (path.join first).text = anchorOf path.text := by
    simp [join]
  have cleaned :
      path.join first =
        ofText (joinText path.text (behindSeparators first)) := by
    rw [ofText_joinText path fun _ => not_isSeparator_of_head?_behindSeparators,
      join_behindSeparators]
  exact ⟨join_join path first second, join_of_still path (Or.inl rfl),
    join_append_of_separators path separators first, anchors, cleaned⟩

theorem joining_concatenates_aboveDrive :
    let path := ofText "../C:"
    (∀ c ∈ "\\/".toList, isSeparator c = true) ∧
      (path.join "..\\a").join "/../b" = path.join ("..\\a" ++ "/" ++ "/../b") ∧
      path.join "" = path ∧
      path.join ("\\/" ++ "..\\a") = path.join "..\\a" ∧
      anchorOf (path.join "..\\a").text = anchorOf path.text ∧
      path.join "..\\a" =
        ofText (joinText path.text (behindSeparators "..\\a")) := by
  have separators : ∀ c ∈ "\\/".toList, isSeparator c = true := by
    simp [isSeparator]
  exact ⟨separators,
    joining_concatenates (ofText "../C:") "..\\a" "/../b" separators⟩

end ConfigTree.Path
