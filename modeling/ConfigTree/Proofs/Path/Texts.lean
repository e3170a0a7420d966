import ConfigTree.Proofs.Package.Below
import ConfigTree.Proofs.Path.Parts
import Mathlib.Algebra.GroupWithZero.Nat

/-!
# What a path's text holds

Cleaning brings nothing into a text but slashes and dots, and makes it no
longer. Main statements: the characters of a cleaned text (`mem_text_ofText`)
and its length (`utf8ByteSize_text_ofText`).
-/

namespace ConfigTree.Path

/-! ## Characters -/

private theorem mem_intercalate_slash {c : Char} :
    ∀ {names : List String},
      c ∈ ("/".intercalate names).toList →
        c = '/' ∨ ∃ name ∈ names, c ∈ name.toList
  | [], member => by simp at member
  | [name], member => by
      rw [String.intercalate_singleton] at member
      exact Or.inr ⟨name, List.mem_cons_self .., member⟩
  | name :: next :: rest, member => by
      have slash : "/".toList = ['/'] := rfl
      rw [String.intercalate_cons_cons, String.toList_append,
        String.toList_append, slash] at member
      rcases List.mem_append.mp member with first | later
      · rcases List.mem_append.mp first with inName | isSlash
        · exact Or.inr ⟨name, List.mem_cons_self .., inName⟩
        · exact Or.inl (List.mem_singleton.mp isSlash)
      · rcases mem_intercalate_slash later with
          isSlash | ⟨other, among, inOther⟩
        · exact Or.inl isSlash
        · exact Or.inr ⟨other, List.mem_cons_of_mem _ among, inOther⟩

/-- A path's text consists of its names, slashes and perhaps a dot. -/
theorem mem_text {path : Path} {c : Char} (member : c ∈ path.text.toList) :
    c = '/' ∨ c = '.' ∨ ∃ name ∈ path.trail, c ∈ name.toList := by
  obtain ⟨anchor, trail, all⟩ := path
  have layout : (⟨anchor, trail, all⟩ : Path).text = "." ∨
      (⟨anchor, trail, all⟩ : Path).text =
          anchor.text ++ "/".intercalate trail.reverse := by
    cases anchor <;> cases trail <;> simp [text]
  rcases layout with dot | whole
  · rw [dot] at member
    exact Or.inr (Or.inl (List.mem_singleton.mp member))
  · rw [whole, String.toList_append] at member
    rcases List.mem_append.mp member with inAnchor | inNames
    · left
      cases anchor with
      | relative => cases inAnchor
      | root => exact List.mem_singleton.mp inAnchor
      | share =>
          have slashes : Anchor.share.text.toList = ['/', '/'] := by decide
          rw [slashes] at inAnchor
          simpa using inAnchor
    · rcases mem_intercalate_slash inNames with isSlash | ⟨name, among, inName⟩
      · exact Or.inl isSlash
      · exact Or.inr (Or.inr ⟨name, List.mem_reverse.mp among, inName⟩)

theorem backslash_not_mem_text (path : Path) : '\\' ∉ path.text.toList := by
  intro member
  rcases mem_text member with slash | dot | ⟨name, among, inName⟩
  · cases slash
  · cases dot
  · exact absurd (unseparated_of_mem_trail path.isTrail name among '\\' inName)
      (by decide)

/-- A cleaned text is from the root on if its path is. -/
theorem head?_text_iff
    (path : Path) :
    path.text.toList.head? = some '/' ↔ path.anchor ≠ .relative := by
  refine ⟨fun slash => ?_, head?_text⟩
  rw [← anchorOf_text path]
  exact rooted_of_head? slash

theorem mem_step {anchor : Anchor} {trail : List String} {name piece : String}
    (member : name ∈ step anchor trail piece) :
    name ∈ trail ∨ name = piece := by
  unfold step at member
  split at member
  · exact Or.inl member
  · split at member
    · rename_i dots
      cases trail with
      | nil =>
          dsimp only at member
          split at member
          · exact Or.inr (dots ▸ List.mem_singleton.mp member)
          · cases member
      | cons last above =>
          dsimp only at member
          split at member
          · exact Or.inl member
          · split at member
            · rcases List.mem_cons.mp member with again | earlier
              · exact Or.inr (dots ▸ again)
              · exact Or.inl earlier
            · exact Or.inl (List.mem_cons_of_mem _ member)
    · rcases List.mem_cons.mp member with here | earlier
      · exact Or.inr here
      · exact Or.inl earlier

private theorem mem_foldl_step {anchor : Anchor} {name : String} :
    ∀ (steps : List String) {trail : List String},
      name ∈ steps.foldl (step anchor) trail → name ∈ trail ∨ name ∈ steps
  | [], _, member => Or.inl member
  | piece :: rest, trail, member => by
      rw [List.foldl_cons] at member
      rcases mem_foldl_step rest member with earlier | later
      · rcases mem_step earlier with inTrail | here
        · exact Or.inl inTrail
        · exact Or.inr (here ▸ List.mem_cons_self ..)
      · exact Or.inr (List.mem_cons_of_mem _ later)

/-- The pieces of a path's text are its names, behind others that change
nothing. -/
theorem exists_pieces_text (path : Path) :
    ∃ still,
      pieces path.text = still ++ path.trail.reverse ∧
      ∀ piece ∈ still, piece = "" ∨ piece = "." := by
  obtain ⟨anchor, trail, all⟩ := path
  cases trail with
  | nil =>
      cases anchor with
      | relative =>
          have dot : pieces "." = ["."] := by decide
          exact ⟨["."], dot, by simp⟩
      | root =>
          have two : pieces "/" = ["", ""] := by decide
          exact ⟨["", ""], two, by simp⟩
      | share =>
          have three : pieces "//" = ["", "", ""] := by decide
          exact ⟨["", "", ""], three, by simp⟩
  | cons name above =>
      have names :
          pieces ("/".intercalate (name :: above).reverse) =
            (name :: above).reverse :=
        pieces_intercalate (by simp) fun other member =>
          unseparated_of_mem_trail all other (List.mem_reverse.mp member)
      cases anchor with
      | relative =>
          refine ⟨[], ?_, by simp⟩
          simp only [text, Anchor.text, String.empty_append]
          rw [names, List.nil_append]
      | root =>
          refine ⟨[""], ?_, by simp⟩
          simp only [text, Anchor.text]
          rw [pieces_slash_append, names, List.singleton_append]
      | share =>
          have twice : "//" = "/" ++ "/" := rfl
          refine ⟨["", ""], ?_, by simp⟩
          simp only [text, Anchor.text]
          rw [twice, String.append_assoc, pieces_slash_append,
            pieces_slash_append, names]
          rfl

/-! ## Length -/

/-- What names take in a text, with one byte for the slash of each. -/
def extent (names : List String) : Nat :=
  (names.map fun name => name.utf8ByteSize + 1).sum

@[simp]
theorem extent_cons (name : String) (rest : List String) :
    extent (name :: rest) = name.utf8ByteSize + 1 + extent rest := by
  rw [extent, List.map_cons, List.sum_cons, extent]

@[simp]
theorem extent_append
    (first second : List String) :
    extent (first ++ second) = extent first + extent second := by
  rw [extent, List.map_append, List.sum_append, extent, extent]

@[simp]
theorem extent_reverse
    (names : List String) :
    extent names.reverse = extent names := by
  rw [extent, List.map_reverse, List.sum_reverse, extent]

private theorem utf8ByteSize_intercalate :
    ∀ {names : List String},
      names ≠ [] → ("/".intercalate names).utf8ByteSize + 1 = extent names
  | [], nonempty => absurd rfl nonempty
  | [name], _ => by
      rw [String.intercalate_singleton, extent_cons]
      rfl
  | name :: next :: rest, _ => by
      have later := utf8ByteSize_intercalate (List.cons_ne_nil next rest)
      have slash : "/".utf8ByteSize = 1 := by decide
      rw [String.intercalate_cons_cons, String.utf8ByteSize_append,
        String.utf8ByteSize_append, extent_cons]
      omega

/-- A step takes no more room than what is stepped over. -/
theorem extent_step (anchor : Anchor) (trail : List String) (piece : String) :
    extent (step anchor trail piece) ≤
      extent trail + (piece.utf8ByteSize + 1) := by
  unfold step
  split
  · omega
  · split
    · rename_i dots
      subst dots
      cases trail with
      | nil =>
          dsimp only
          split
          · rw [extent_cons]
            omega
          · omega
      | cons last above =>
          dsimp only
          split
          · omega
          · split
            · rw [extent_cons]
              omega
            · rw [extent_cons]
              omega
    · rw [extent_cons]
      omega

theorem extent_foldl_step (anchor : Anchor) :
    ∀ (steps trail : List String),
      extent (steps.foldl (step anchor) trail) ≤ extent trail + extent steps
  | [], trail => Nat.le_add_right ..
  | piece :: rest, trail => by
      have here := extent_step anchor trail piece
      have later := extent_foldl_step anchor rest (step anchor trail piece)
      rw [List.foldl_cons, extent_cons]
      omega

theorem extent_pos
    {names : List String} (nonempty : names ≠ []) :
    0 < extent names := by
  cases names with
  | nil => exact absurd rfl nonempty
  | cons name rest =>
      rw [extent_cons]
      omega

private theorem utf8ByteSize_text_of_nil
    {path : Path} (unnamed : path.trail = []) :
    path.text.utf8ByteSize = max 1 path.anchor.text.utf8ByteSize := by
  obtain ⟨anchor, trail, all⟩ := path
  cases unnamed
  cases anchor <;> rfl

theorem text_of_named {path : Path} (named : path.trail ≠ []) :
    path.text = path.anchor.text ++ "/".intercalate path.trail.reverse := by
  obtain ⟨anchor, trail, all⟩ := path
  cases trail with
  | nil => exact absurd rfl named
  | cons name above => cases anchor <;> rfl

/-- The length of a path's text, with one byte more for the slash that its last
name does not need. -/
theorem utf8ByteSize_text {path : Path} (named : path.trail ≠ []) :
    path.text.utf8ByteSize + 1 =
      path.anchor.text.utf8ByteSize + extent path.trail := by
  have whole := text_of_named named
  have reversed : path.trail.reverse ≠ [] := by simpa using named
  have names := utf8ByteSize_intercalate reversed
  rw [extent_reverse] at names
  rw [whole, String.utf8ByteSize_append]
  omega

private theorem utf8ByteSize_ofList_cons (c : Char) (rest : List Char) :
    (String.ofList (c :: rest)).utf8ByteSize =
      c.utf8Size + (String.ofList rest).utf8ByteSize := by
  rw [String.ofList_cons, String.utf8ByteSize_append,
    String.utf8ByteSize_singleton]

theorem extent_splitOnP :
    ∀ chars : List Char,
      extent ((chars.splitOnP isSeparator).map String.ofList) =
        (String.ofList chars).utf8ByteSize + 1
  | [] => by decide
  | c :: rest => by
      have later := extent_splitOnP rest
      rw [List.splitOnP_cons_eq_if_modifyHead, utf8ByteSize_ofList_cons]
      split
      · rename_i separator
        have oneByte : c.utf8Size = 1 := by
          simp only [isSeparator, Bool.or_eq_true, decide_eq_true_eq]
            at separator
          rcases separator with rfl | rfl <;> decide
        have nothing : (String.ofList []).utf8ByteSize = 0 := by decide
        rw [List.map_cons, extent_cons, later]
        omega
      · cases parts : rest.splitOnP isSeparator with
        | nil => exact absurd parts (List.splitOnP_ne_nil _ _)
        | cons first others =>
            rw [parts, List.map_cons, extent_cons] at later
            rw [List.modifyHead_cons, List.map_cons, extent_cons,
              utf8ByteSize_ofList_cons]
            omega

@[simp]
theorem extent_pieces
    (text : String) :
    extent (pieces text) = text.utf8ByteSize + 1 := by
  simp [pieces, extent_splitOnP]

theorem pieces_ne_nil (text : String) : pieces text ≠ [] := by
  rw [pieces]
  exact fun none => List.splitOnP_ne_nil _ _ (List.map_eq_nil_iff.mp none)

/-- The separators of an anchor come first, with nothing between them. -/
theorem pieces_of_separator
    {text : String}
    {c : Char}
    {rest : List Char}
    (chars : text.toList = c :: rest)
    (separator : isSeparator c = true) :
    pieces text = "" :: pieces (String.ofList rest) := by
  rw [pieces, chars, List.splitOnP_cons_eq_if_modifyHead, if_pos separator,
    List.map_cons, pieces, String.toList_ofList]

/-- A text has one piece for each separator of its anchor, and further ones. -/
theorem exists_pieces_behind (text : String) :
    ∃ blanks rest,
      pieces text = blanks ++ rest ∧ rest ≠ [] ∧
      (∀ piece ∈ blanks, piece = "") ∧
      blanks.length = (anchorOf text).text.utf8ByteSize := by
  unfold anchorOf
  cases chars : text.toList with
  | nil => exact ⟨[], pieces text, rfl, pieces_ne_nil text, by simp, rfl⟩
  | cons c rest =>
      by_cases separator : isSeparator c = true
      · have first := pieces_of_separator chars separator
        have one :
            ∃ blanks others,
              pieces text = blanks ++ others ∧ others ≠ [] ∧
              (∀ piece ∈ blanks, piece = "") ∧
              blanks.length = Anchor.root.text.utf8ByteSize :=
          ⟨[""], _, first, pieces_ne_nil _, by simp, by decide⟩
        cases rest with
        | nil => simpa [List.takeWhile, separator] using one
        | cons d rest =>
            by_cases again : isSeparator d = true
            · have second :
                  pieces (String.ofList (d :: rest)) =
                    "" :: pieces (String.ofList rest) :=
                pieces_of_separator (String.toList_ofList) again
              have two :
                  ∃ blanks others,
                    pieces text = blanks ++ others ∧ others ≠ [] ∧
                    (∀ piece ∈ blanks, piece = "") ∧
                    blanks.length = Anchor.share.text.utf8ByteSize :=
                ⟨["", ""], pieces (String.ofList rest),
                  by rw [first, second]; rfl, pieces_ne_nil _, by simp,
                  by decide⟩
              rw [List.takeWhile_cons_of_pos separator,
                List.takeWhile_cons_of_pos again, List.length_cons,
                List.length_cons]
              split
              · omega
              · exact two
              · exact one
            · simpa [List.takeWhile, separator, again] using one
      · rw [List.takeWhile_cons_of_neg separator]
        exact ⟨[], pieces text, rfl, pieces_ne_nil text, by simp, rfl⟩

theorem foldl_step_blanks {anchor : Anchor} {trail : List String} :
    ∀ {blanks : List String},
      (∀ piece ∈ blanks, piece = "") → blanks.foldl (step anchor) trail = trail
  | [], _ => rfl
  | piece :: rest, empty => by
      rw [List.foldl_cons, empty piece (List.mem_cons_self ..), step_empty]
      exact foldl_step_blanks fun other member =>
        empty other (List.mem_cons_of_mem _ member)

theorem extent_blanks :
    ∀ {blanks : List String},
      (∀ piece ∈ blanks, piece = "") → extent blanks = blanks.length
  | [], _ => rfl
  | piece :: rest, empty => by
      have later :=
        extent_blanks fun other member =>
          empty other (List.mem_cons_of_mem _ member)
      have nothing : "".utf8ByteSize = 0 := by decide
      rw [extent_cons, empty piece (List.mem_cons_self ..), later,
        List.length_cons]
      omega

private theorem mem_of_mem_splitOnP
    {α : Type} {p : α → Bool} {x : α} {piece : List α} (inside : x ∈ piece) :
    ∀ {whole : List α}, piece ∈ whole.splitOnP p → x ∈ whole
  | [], member => by
      rw [List.splitOnP_nil, List.mem_singleton] at member
      rw [member] at inside
      cases inside
  | first :: rest, member => by
      rw [List.splitOnP_cons_eq_if_modifyHead] at member
      split at member
      · rcases List.mem_cons.mp member with none | later
        · rw [none] at inside
          cases inside
        · exact List.mem_cons_of_mem _ (mem_of_mem_splitOnP inside later)
      · cases parts : rest.splitOnP p with
        | nil => exact absurd parts (List.splitOnP_ne_nil _ _)
        | cons head tail =>
            rw [parts, List.modifyHead_cons] at member
            rcases List.mem_cons.mp member with here | later
            · rw [here] at inside
              rcases List.mem_cons.mp inside with same | inHead
              · exact same ▸ List.mem_cons_self ..
              · have among : head ∈ rest.splitOnP p :=
                  parts ▸ List.mem_cons_self ..
                exact List.mem_cons_of_mem _ (mem_of_mem_splitOnP inHead among)
            · have among : piece ∈ rest.splitOnP p :=
                parts ▸ List.mem_cons_of_mem _ later
              exact List.mem_cons_of_mem _ (mem_of_mem_splitOnP inside among)

private theorem mem_of_mem_pieces
    {text piece : String}
    {c : Char}
    (member : piece ∈ pieces text)
    (inside : c ∈ piece.toList) :
    c ∈ text.toList := by
  obtain ⟨chars, among, rfl⟩ := List.mem_map.mp member
  rw [String.toList_ofList] at inside
  exact mem_of_mem_splitOnP inside among

/-! ## Cleaned texts -/

@[simp]
theorem anchor_ofText (text : String) : (ofText text).anchor = anchorOf text :=
  rfl

/-- Cleaning makes no text longer, except that nothing becomes a dot. -/
theorem utf8ByteSize_text_ofText {text : String} (nonempty : text ≠ "") :
    (ofText text).text.utf8ByteSize ≤ text.utf8ByteSize := by
  obtain ⟨blanks, rest, whole, further, empty, separators⟩ :=
    exists_pieces_behind text
  have size := extent_pieces text
  rw [whole, extent_append, extent_blanks empty] at size
  have trail : (ofText text).trail = rest.foldl (step (anchorOf text)) [] := by
    rw [trail_ofText, whole, List.foldl_append, foldl_step_blanks empty]
  by_cases named : (ofText text).trail = []
  · have something : 0 < text.utf8ByteSize := by
      have size : text.utf8ByteSize ≠ 0 := by simpa using nonempty
      exact Nat.pos_of_ne_zero size
    have more : 0 < extent rest := extent_pos further
    have short := utf8ByteSize_text_of_nil named
    rw [anchor_ofText] at short
    omega
  · have written := utf8ByteSize_text named
    have shorter := extent_foldl_step (anchorOf text) rest []
    have none : extent [] = 0 := rfl
    rw [trail, anchor_ofText] at written
    omega

theorem text_ne_empty (path : Path) : path.text ≠ "" := by
  intro empty
  have same : path = ofText "" := by rw [← empty, ofText_text]
  have dot : (ofText "").text = "." := by decide
  rw [same, dot] at empty
  exact absurd empty (by decide)

theorem mem_text_of_mem_trail
    {path : Path} {name : String} {c : Char} (among : name ∈ path.trail)
    (inside : c ∈ name.toList) : c ∈ path.text.toList := by
  obtain ⟨still, whole, _⟩ := exists_pieces_text path
  have inPieces : name ∈ pieces path.text := by
    rw [whole]
    exact List.mem_append_right _ (List.mem_reverse.mpr among)
  exact mem_of_mem_pieces inPieces inside

/-- A joined text has no characters but those of both texts, slashes and a
dot. -/
theorem mem_text_join
    {path : Path}
    {segment : String}
    {c : Char}
    (member : c ∈ (path.join segment).text.toList) :
    c = '/' ∨ c = '.' ∨ c ∈ path.text.toList ∨ c ∈ segment.toList := by
  rcases mem_text member with slash | dot | ⟨name, among, inName⟩
  · exact Or.inl slash
  · exact Or.inr (Or.inl dot)
  · rcases mem_foldl_step (pieces segment) among with inTrail | inPieces
    · exact Or.inr (Or.inr (Or.inl (mem_text_of_mem_trail inTrail inName)))
    · exact Or.inr (Or.inr (Or.inr (mem_of_mem_pieces inPieces inName)))

/-- A cleaned text has no characters but those of the text, slashes and a
dot. -/
theorem mem_text_ofText
    {text : String} {c : Char} (member : c ∈ (ofText text).text.toList) :
    c = '/' ∨ c = '.' ∨ c ∈ text.toList := by
  rcases mem_text_join member with slash | dot | inAnchor | inText
  · exact Or.inl slash
  · exact Or.inr (Or.inl dot)
  · rcases mem_text inAnchor with slash | dot | ⟨name, among, _⟩
    · exact Or.inl slash
    · exact Or.inr (Or.inl dot)
    · cases among
  · exact Or.inr (Or.inr inText)

end ConfigTree.Path
