import ConfigTree.Proofs.FileSystem.Places
import ConfigTree.Proofs.Package.Rooted
import ConfigTree.Proofs.Path.Climbing
import ConfigTree.Proofs.Path.Joining

/-!
# Texts made absolute

A text is made absolute as it is written, where a backslash is a character like
any other, and cleaned afterwards. Its names come out as those of the cleaned
path seen from the current directory, unless the text starts with a backslash
(`trail_ofText_absoluteText`). Where it starts can be mistaken in one way: a
name that starts with a backslash comes to stand behind the first slash. Main
statements: when a text is made absolute as what it stands for once it is
cleaned (`absolute_eq_meant_iff`), and that this is so of every text that starts
with no such name (`absolute_eq_meant`).
-/

namespace ConfigTree

/-! ## Where longer texts start -/

namespace Path

private theorem IsSteady.joinText
    {base part : String}
    (steady : IsSteady base)
    (relative : part.toList.head? ≠ some '/') :
    IsSteady (joinText base part) ∧
      anchorOf (joinText base part) = anchorOf base := by
  rcases joinText_cases base relative with ⟨joined, _⟩ | ⟨joined, _⟩
  · rw [joined]
    exact ⟨steady.append part, steady part⟩
  · rw [joined, String.append_assoc]
    exact ⟨steady.append _, steady _⟩

private theorem IsSteady.foldl_joinText :
    ∀ {parts : List String} {base : String},
      IsSteady base → (∀ part ∈ parts, part.toList.head? ≠ some '/') →
        IsSteady (parts.foldl ConfigTree.joinText base) ∧
          anchorOf (parts.foldl ConfigTree.joinText base) = anchorOf base
  | [], _, steady, _ => ⟨steady, rfl⟩
  | part :: rest, base, steady, relative => by
      obtain ⟨here, later⟩ := List.forall_mem_cons.mp relative
      obtain ⟨longer, same⟩ := steady.joinText here
      obtain ⟨whole, start⟩ := longer.foldl_joinText later
      exact ⟨whole, start.trans same⟩

private theorem joinText_of_getLast?
    {base part : String}
    (slash : base.toList.getLast? = some '/')
    (relative : part.toList.head? ≠ some '/') :
    joinText base part = base ++ part := by
  rw [joinText, if_neg relative, if_pos (Or.inr slash)]

/-- Behind a slash, a name that starts with no separator settles where the text
starts. -/
theorem isSteady_joinText_name
    {base name : String}
    (slash : base.toList.getLast? = some '/')
    (nonempty : name ≠ "")
    (plain : ∀ c, name.toList.head? = some c → isSeparator c = false) :
    IsSteady (joinText base name) ∧
      anchorOf (joinText base name) = anchorOf base := by
  obtain ⟨c, others, chars⟩ :=
    List.exists_cons_of_ne_nil fun none =>
      nonempty (String.toList_eq_nil_iff.mp none)
  have unseparated : isSeparator c = false :=
    plain c (by rw [chars, List.head?_cons])
  rw [joinText_of_getLast? slash (head?_ne_slash plain)]
  refine ⟨isSteady_of_mem ?_ unseparated, anchorOf_append base plain⟩
  rw [String.toList_append, chars]
  exact List.mem_append_right _ (List.mem_cons_self ..)

/-- The first of some names does not start with a backslash. -/
def FirstIsPlain (names : List String) : Prop :=
  ∀ name ∈ names.head?, name.toList.head? ≠ some '\\'

/-- Names can be put behind a text without touching where it starts. -/
def IsReadyFor (base : String) (names : List String) : Prop :=
  IsSteady base ∨ base.toList.getLast? = some '/' ∧ FirstIsPlain names

/-- Where a text with names behind it starts. The names may end with a slash. -/
theorem anchorOf_joinText_foldl
    {base : String} {names : List String} (ready : IsReadyFor base names)
    (proper : ∀ name ∈ names, name ≠ "" ∧ '/' ∉ name.toList) :
    anchorOf (names.foldl joinText base) = anchorOf base ∧
      anchorOf (joinText (names.foldl joinText base) "") = anchorOf base := by
  have relative : ∀ name ∈ names, name.toList.head? ≠ some '/' :=
    fun name member slash => (proper name member).2 (List.mem_of_head? slash)
  have ofSteady :
      IsSteady (names.foldl joinText base) ∧
        anchorOf (names.foldl joinText base) = anchorOf base →
        anchorOf (names.foldl joinText base) = anchorOf base ∧
          anchorOf (joinText (names.foldl joinText base) "") =
            anchorOf base := by
    rintro ⟨steady, start⟩
    exact ⟨start, (steady.joinText (by simp)).2.trans start⟩
  rcases ready with steady | ⟨slash, plain⟩
  · exact ofSteady (steady.foldl_joinText relative)
  · cases names with
    | nil =>
        have closed : joinText base "" = base := by
          rw [joinText_of_getLast? slash (by simp), String.append_empty]
        exact ⟨rfl, congrArg anchorOf closed⟩
    | cons name rest =>
        obtain ⟨⟨nonempty, _⟩, _⟩ := List.forall_mem_cons.mp proper
        obtain ⟨here, later⟩ := List.forall_mem_cons.mp relative
        have unseparated :
            ∀ c, name.toList.head? = some c → isSeparator c = false := by
          intro c first
          have notSlash : c ≠ '/' := fun same => here (same ▸ first)
          have notBackslash : c ≠ '\\' :=
            fun same => plain name rfl (same ▸ first)
          simp [isSeparator, notSlash, notBackslash]
        obtain ⟨steady, same⟩ :=
          isSteady_joinText_name slash nonempty unseparated
        obtain ⟨whole, start⟩ := steady.foldl_joinText later
        exact ofSteady ⟨whole, start.trans same⟩

/-- The names of a text with parts behind it. -/
theorem foldl_pieces_foldl_joinText
    (anchor : Anchor) :
    ∀ {parts : List String} {base : String},
      (∀ part ∈ parts, part.toList.head? ≠ some '/') →
        (pieces (parts.foldl joinText base)).foldl (step anchor) [] =
          parts.foldl
            (fun trail part => (pieces part).foldl (step anchor) trail)
            ((pieces base).foldl (step anchor) [])
  | [], _, _ => rfl
  | part :: rest, base, relative => by
      obtain ⟨here, later⟩ := List.forall_mem_cons.mp relative
      rw [List.foldl_cons, foldl_pieces_foldl_joinText anchor later,
        foldl_pieces_joinText anchor base here]
      rfl

private theorem foldl_pieces_intercalate
    (anchor : Anchor) :
    ∀ (names trail : List String),
      (pieces ("/".intercalate names)).foldl (step anchor) trail =
        names.foldl (fun trail name => (pieces name).foldl (step anchor) trail)
          trail
  | [], trail => by
      have nothing : pieces ("/".intercalate []) = [""] := by decide
      rw [nothing, List.foldl_cons, step_empty]
      rfl
  | [name], trail => by
      rw [String.intercalate_singleton]
      rfl
  | name :: next :: rest, trail => by
      rw [String.intercalate_cons_cons, pieces_slash, List.foldl_append,
        foldl_pieces_intercalate]
      rfl

/-- A segment that is relative once it is cleaned may as well be cleaned before
it is joined. -/
theorem join_text_ofText
    (path : Path) {segment : String} (relative : anchorOf segment = .relative) :
    path.join (ofText segment).text = path.join segment := by
  have anchor : anchorOf (ofText segment).text = .relative := by
    rw [anchorOf_text, anchor_ofText, relative]
  have sameFromHere :
      (ofAnchor .relative).join (ofText segment).text =
        (ofAnchor .relative).join segment := by
    have again := ofText_text (ofText segment)
    rw [ofText, anchor] at again
    rw [again, ofText, relative]
  have anchors :
      (path.join (ofText segment).text).anchor = (path.join segment).anchor :=
    rfl
  apply eq_of_parts anchors
  rw [trail_join, trail_join, entered, entered, climbs, climbs, sameFromHere]

end Path

namespace FileSystem

variable {files : FileSystem}

/-! ## Names of a text -/

@[simp]
theorem intercalate_steps
    (text : String) :
    "/".intercalate (steps text) = text := by
  have slash : "/".toList = ['/'] := rfl
  apply String.toList_inj.mp
  rw [String.toList_intercalate, slash, steps, List.map_map]
  have back : String.toList ∘ String.ofList = id := by
    funext chars
    exact String.toList_ofList
  rw [back, List.map_id, List.intercalate_splitOn]

private theorem slash_not_mem_of_mem_steps
    {text step : String} (member : step ∈ steps text) :
    '/' ∉ step.toList := by
  obtain ⟨chars, among, rfl⟩ := List.mem_map.mp member
  rw [List.splitOn_eq_splitOnP] at among
  rw [String.toList_ofList]
  intro slash
  have other := Path.not_mem_of_mem_splitOnP among '/' slash
  simp at other

private theorem proper_of_mem_namesOf
    {text name : String} (member : name ∈ namesOf text) :
    name ≠ "" ∧ '/' ∉ name.toList := by
  obtain ⟨among, passes⟩ := List.mem_filter.mp member
  refine ⟨?_, slash_not_mem_of_mem_steps among⟩
  rintro rfl
  cases passes

private theorem head?_ne_of_mem_namesOf
    {text : String} :
    ∀ name ∈ namesOf text, name.toList.head? ≠ some '/' :=
  fun _ member slash =>
    (proper_of_mem_namesOf member).2 (List.mem_of_head? slash)

/-- Cleaning does not see the empty names and dots that an absolute text leaves
out. -/
theorem foldl_namesOf (anchor : Anchor) (text : String) (trail : List String) :
    (namesOf text).foldl
        (fun trail name => (Path.pieces name).foldl (Path.step anchor) trail)
        trail = (Path.pieces text).foldl (Path.step anchor) trail := by
  have whole := Path.foldl_pieces_intercalate anchor (steps text) trail
  rw [intercalate_steps] at whole
  rw [whole, namesOf, List.foldl_filter]
  apply List.foldl_ext
  intro before name _
  by_cases nothing : name = ""
  · have alone : Path.pieces "" = [""] := by decide
    rw [nothing, if_neg (by decide), alone]
    rfl
  · by_cases dot : name = "."
    · have alone : Path.pieces "." = ["."] := by decide
      rw [dot, if_neg (by decide), alone]
      rfl
    · rw [if_pos (by simp [nothing, dot])]

/-- The first name of a text does not start with a backslash. Otherwise a slash
that comes to stand before the name would make two separators of the one. -/
def StartsPlain (text : String) : Prop :=
  Path.FirstIsPlain (namesOf text)

instance (text : String) : Decidable (StartsPlain text) :=
  inferInstanceAs (Decidable (∀ name ∈ (namesOf text).head?, _))

theorem startsPlain_of_backslash_not_mem
    {text : String} (plain : '\\' ∉ text.toList) :
    StartsPlain text := by
  intro name first backslash
  have among := (List.mem_filter.mp (List.mem_of_head? first)).1
  rw [← pieces_eq_steps plain] at among
  exact absurd
    (Path.unseparated_of_mem_pieces among '\\' (List.mem_of_head? backslash))
    (by decide)

@[simp]
theorem namesOf_slash_append
    (text : String) :
    namesOf ("/" ++ text) = namesOf text := by
  rw [namesOf, steps_slash_append]
  exact List.filter_cons_of_neg (by simp)

/-- A backslash at the start of a text is the start of its first name. -/
theorem exists_name_of_backslash (rest : List Char) :
    ∃ name,
      (namesOf (String.ofList ('\\' :: rest))).head? = some name ∧
      name.toList.head? = some '\\' := by
  obtain ⟨first, others, parts⟩ :=
    List.exists_cons_of_ne_nil (List.splitOnP_ne_nil (· == '/') rest)
  have split : steps (String.ofList ('\\' :: rest)) =
      String.ofList ('\\' :: first) :: others.map String.ofList := by
    rw [steps, String.toList_ofList, List.splitOn_eq_splitOnP,
      List.splitOnP_cons_eq_if_modifyHead, if_neg (by decide), parts,
      List.modifyHead_cons, List.map_cons]
  have kept :
      ∀ other : String,
        other.toList.head? ≠ some '\\' →
          String.ofList ('\\' :: first) ≠ other := by
    rintro other different rfl
    rw [String.toList_ofList, List.head?_cons] at different
    exact different rfl
  have notEmpty := decide_eq_true (kept "" (by decide))
  have notDot := decide_eq_true (kept "." (by decide))
  refine ⟨String.ofList ('\\' :: first), ?_,
    by rw [String.toList_ofList, List.head?_cons]⟩
  rw [namesOf, split]
  simp only [List.filter_cons, notEmpty, notDot, Bool.and_self, if_true,
    List.head?_cons]

/-- Of a text that starts plain, both kinds of separators at its start are
slashes. -/
theorem takeWhile_of_startsPlain :
    ∀ (chars : List Char), StartsPlain (String.ofList chars) →
      chars.takeWhile isSeparator = chars.takeWhile (· = '/')
  | [], _ => rfl
  | c :: rest, plain => by
      by_cases slash : c = '/'
      · subst slash
        have layout :
            String.ofList ('/' :: rest) = "/" ++ String.ofList rest := by
          apply String.toList_inj.mp
          have start : "/".toList = ['/'] := rfl
          rw [String.toList_append, start, String.toList_ofList,
            String.toList_ofList, List.singleton_append]
        rw [layout, StartsPlain, namesOf_slash_append] at plain
        rw [List.takeWhile_cons_of_pos (by decide),
          List.takeWhile_cons_of_pos (by simp),
          takeWhile_of_startsPlain rest plain]
      · have notSeparator : ¬isSeparator c = true := by
          intro separator
          have backslash : c = '\\' := by
            simpa [isSeparator, slash] using separator
          obtain ⟨name, head, starts⟩ := exists_name_of_backslash rest
          rw [backslash] at plain
          exact plain name head starts
        rw [List.takeWhile_cons_of_neg notSeparator,
          List.takeWhile_cons_of_neg (by simpa using slash)]

/-! ## The current directory -/

/-- The path of the current directory. -/
def here (files : FileSystem) : Path :=
  Path.ofText files.currentText

private theorem rooted_here
    (files : FileSystem) :
    files.here.anchor ≠ .relative :=
  Path.rooted_of_head? files.head?_currentText

/-- The names of the current directory are names that entries have. Its text is
not a slash and a backslash, which cleaning takes for the start of a share. -/
structure HasProperCurrent (files : FileSystem) : Prop where
  names : ∀ name ∈ files.current, IsEntryName name
  notBackslash : files.current ≠ ["\\"]

private theorem isSteady_currentText
    (proper : files.HasProperCurrent) (below : files.current ≠ []) :
    Path.IsSteady files.currentText := by
  have inward : ∀ name ∈ files.current.reverse, IsEntryName name :=
    fun name member => proper.names name (List.mem_reverse.mp member)
  have names := steps_intercalate (List.reverse_ne_nil_iff.mpr below) inward
  have whole :
      files.currentText.toList =
        '/' :: ("/".intercalate files.current.reverse).toList := by
    have slash : "/".toList = ['/'] := rfl
    rw [currentText, placeText, String.toList_append, slash,
      List.singleton_append]
  have notSlash := head?_intercalate_ne inward
  cases chars : ("/".intercalate files.current.reverse).toList with
  | nil =>
      have alone : steps "" = [""] := by decide
      rw [String.toList_eq_nil_iff.mp chars, alone] at names
      exact absurd rfl (inward "" (names ▸ List.mem_singleton_self "")).1
  | cons c others =>
      cases others with
      | nil =>
          have notBackslash : c ≠ '\\' := by
            rintro rfl
            have alone : steps "\\" = ["\\"] := by decide
            have only : "/".intercalate files.current.reverse = "\\" :=
              String.toList_inj.mp chars
            rw [only, alone] at names
            exact proper.notBackslash (List.reverse_eq_iff.mp names.symm)
          have plain : isSeparator c = false := by
            rw [chars] at notSlash
            have otherwise : c ≠ '/' := by simpa using notSlash
            simp [isSeparator, otherwise, notBackslash]
          refine Path.isSteady_of_mem ?_ plain
          rw [whole, chars]
          exact List.mem_cons_of_mem _ (List.mem_cons_self ..)
      | cons next rest =>
          apply Path.isSteady_of_length
          rw [whole, chars]
          simp

private theorem isReadyFor_currentText
    (proper : files.HasProperCurrent)
    {names : List String}
    (plain : Path.FirstIsPlain names) :
    Path.IsReadyFor files.currentText names := by
  by_cases top : files.current = []
  · refine Or.inr ⟨?_, plain⟩
    rw [currentText, top]
    decide
  · exact Or.inl (isSteady_currentText proper top)

/-! ## Where absolute texts start -/

private theorem takeWhile_slash_eq_nil
    {text : String} (relative : text.toList.head? ≠ some '/') :
    text.toList.takeWhile (· = '/') = [] := by
  cases chars : text.toList with
  | nil => rfl
  | cons c rest =>
      rw [chars] at relative
      rw [List.takeWhile_cons_of_neg (by simpa using relative)]

private theorem sightStart_of_relative
    {text : String} (relative : text.toList.head? ≠ some '/') :
    files.sightStart text = files.currentText := by
  rw [sightStart, takeWhile_slash_eq_nil relative]
  rfl

/-- Seen from the root, a text from the root on stands behind one slash or
two. -/
theorem sightStart_of_slash
    {text : String} (slash : text.toList.head? = some '/') :
    files.sightStart text = "/" ∨ files.sightStart text = "//" := by
  obtain ⟨rest, chars⟩ := List.head?_eq_some_iff.mp slash
  unfold sightStart
  rw [chars, List.takeWhile_cons_of_pos (by simp), List.length_cons]
  split
  · omega
  · exact Or.inr rfl
  · exact Or.inl rfl

/-- Where a text starts whose separators at the start are slashes. -/
theorem anchorOf_of_startsPlain
    (files : FileSystem) {text : String} (plain : StartsPlain text) :
    Path.anchorOf text =
      if text.toList.head? = some '/' then
        Path.anchorOf (files.sightStart text)
      else
        .relative := by
  have same :=
    takeWhile_of_startsPlain text.toList (by rwa [String.ofList_toList])
  rw [Path.anchorOf, same]
  by_cases slash : text.toList.head? = some '/'
  · have one : Path.anchorOf "/" = .root := by decide
    have two : Path.anchorOf "//" = .share := by decide
    obtain ⟨rest, chars⟩ := List.head?_eq_some_iff.mp slash
    rw [if_pos slash, sightStart, chars, List.takeWhile_cons_of_pos (by simp),
      List.length_cons]
    rcases (rest.takeWhile (· = '/')).length with _ | _ | more
    · exact one.symm
    · exact two.symm
    · exact one.symm
  · rw [if_neg slash, takeWhile_slash_eq_nil slash]
    rfl

private theorem anchorOf_absoluteText
    {text : String}
    (ready : Path.IsReadyFor (files.sightStart text) (namesOf text)) :
    Path.anchorOf (files.absoluteText text) =
      Path.anchorOf (files.sightStart text) := by
  obtain ⟨names, closed⟩ :=
    Path.anchorOf_joinText_foldl ready fun _ => proper_of_mem_namesOf
  unfold absoluteText
  dsimp only
  split
  · exact closed
  · exact names

/-! ## Names of absolute texts -/

private theorem foldl_pieces_absoluteText (anchor : Anchor) (text : String) :
    (Path.pieces (files.absoluteText text)).foldl (Path.step anchor) [] =
      (Path.pieces text).foldl (Path.step anchor)
        ((Path.pieces (files.sightStart text)).foldl (Path.step anchor)
          []) := by
  have names :
      (Path.pieces
          ((namesOf text).foldl joinText (files.sightStart text))).foldl
          (Path.step anchor) [] =
        (Path.pieces text).foldl (Path.step anchor)
          ((Path.pieces (files.sightStart text)).foldl (Path.step anchor)
            []) := by
    rw [Path.foldl_pieces_foldl_joinText anchor head?_ne_of_mem_namesOf,
      foldl_namesOf]
  have nothing : Path.pieces "" = [""] := by decide
  unfold absoluteText
  dsimp only
  split
  · rw [Path.foldl_pieces_joinText _ _ (by simp), nothing, List.foldl_cons,
      List.foldl_nil, Path.step_empty, names]
  · exact names

/-- An absolute text has the names that the text has from the root, or else from
the current directory. -/
theorem trail_ofText_absoluteText (text : String) :
    (Path.ofText (files.absoluteText text)).trail =
      if text.toList.head? = some '/' then
        (Path.ofText text).trail
      else
        (files.here.join text).trail := by
  have rooted : Path.anchorOf (files.absoluteText text) ≠ .relative :=
    Path.rooted_of_head? (files.head?_absoluteText text)
  rw [Path.trail_ofText, foldl_pieces_absoluteText]
  by_cases slash : text.toList.head? = some '/'
  · have own : Path.anchorOf text ≠ .relative := Path.rooted_of_head? slash
    have nothing :
        (Path.pieces (files.sightStart text)).foldl
            (Path.step (Path.anchorOf (files.absoluteText text))) [] = [] := by
      have one : Path.pieces "/" = ["", ""] := by decide
      have two : Path.pieces "//" = ["", "", ""] := by decide
      rcases files.sightStart_of_slash slash with root | share
      · rw [root, one]
        rfl
      · rw [share, two]
        rfl
    rw [if_pos slash, nothing, Path.trail_ofText,
      Path.foldl_step_eq_of_relative_iff (iff_of_false rooted own)]
  · have same :=
      Path.foldl_step_eq_of_relative_iff (iff_of_false rooted files.rooted_here)
    rw [if_neg slash, sightStart_of_relative slash, same, same]
    rfl

/-! ## Cleaning first -/

/-- The path that a text stands for once it is cleaned: the cleaned path itself
if that is from the root on, and else what the text leads to from the current
directory. -/
def meant (files : FileSystem) (text : String) : Path :=
  if (Path.ofText text).text.toList.head? = some '/' then
    Path.ofText text
  else
    files.here.join text

theorem meant_of_relative
    {text : String} (relative : Path.anchorOf text = .relative) :
    files.meant text = files.here.join text :=
  if_neg fun slash => (Path.head?_text_iff _).mp slash relative

theorem meant_of_rooted
    {text : String} (rooted : Path.anchorOf text ≠ .relative) :
    files.meant text = Path.ofText text :=
  if_pos ((Path.head?_text_iff _).mpr rooted)

theorem rooted_meant
    (files : FileSystem) (text : String) :
    (files.meant text).anchor ≠ .relative := by
  by_cases relative : Path.anchorOf text = .relative
  · rw [meant_of_relative relative]
    exact files.rooted_here
  · rw [meant_of_rooted relative]
    exact relative

/-- A text that is cleaned already stands for what it stood for before. -/
@[simp]
theorem meant_text_ofText (files : FileSystem) (text : String) :
    files.meant (Path.ofText text).text = files.meant text := by
  have anchor : Path.anchorOf (Path.ofText text).text = Path.anchorOf text :=
    Path.anchorOf_text _
  by_cases relative : Path.anchorOf text = .relative
  · rw [meant_of_relative relative, meant_of_relative (anchor.trans relative),
      Path.join_text_ofText _ relative]
  · rw [meant_of_rooted relative, meant_of_rooted (anchor ▸ relative),
      Path.ofText_text]

private theorem head?_eq_backslash
    {text : String} (rooted : Path.anchorOf text ≠ .relative)
    (notSlash : text.toList.head? ≠ some '/') :
    text.toList.head? = some '\\' := by
  rw [Ne, Path.anchorOf_eq_relative_iff] at rooted
  push Not at rooted
  obtain ⟨c, first, separator⟩ := rooted
  have otherwise : c ≠ '/' := fun slash => notSlash (slash ▸ first)
  have backslash : c = '\\' := by simpa [isSeparator, otherwise] using separator
  exact backslash ▸ first

/-- A text that starts with a backslash has the names of its cleaned path if it
climbs out of every name of the current directory. -/
theorem trail_join_here_iff
    {text : String} (rooted : Path.anchorOf text ≠ .relative) :
    (files.here.join text).trail = (Path.ofText text).trail ↔
      files.here.climb (Path.climbs text) = [] := by
  have top : Path.up (Path.anchorOf text) [] = [] := by
    simp [Path.up, Path.step, rooted]
  have nothing :
      (Path.ofAnchor (Path.anchorOf text)).climb (Path.climbs text) = [] :=
    Function.iterate_fixed top _
  rw [Path.ofText, Path.trail_join, Path.trail_join, nothing, List.append_nil,
    List.append_right_eq_self]

/-- Making a text absolute gives the path that it stands for once it is cleaned
if and only if it starts where that path does and, should it start with a
backslash, nothing of the current directory is left. -/
theorem absolute_eq_meant_iff {text : String} (nonempty : text ≠ "") :
    files.absolute text = .ok (files.meant text) ↔
      Path.anchorOf (files.absoluteText text) = (files.meant text).anchor ∧
        (text.toList.head? = some '\\' →
          files.here.climb (Path.climbs text) = []) := by
  have names :
      (Path.ofText (files.absoluteText text)).trail = (files.meant text).trail ↔
        (text.toList.head? = some '\\' →
          files.here.climb (Path.climbs text) = []) := by
    rw [trail_ofText_absoluteText]
    by_cases slash : text.toList.head? = some '/'
    · have noBackslash : text.toList.head? ≠ some '\\' := by
        rw [slash]
        decide
      rw [if_pos slash, meant_of_rooted (Path.rooted_of_head? slash)]
      exact iff_of_true rfl fun backslash => absurd backslash noBackslash
    · rw [if_neg slash]
      by_cases relative : Path.anchorOf text = .relative
      · have noBackslash : text.toList.head? ≠ some '\\' := by
          intro backslash
          exact absurd
            ((Path.anchorOf_eq_relative_iff text).mp relative '\\' backslash)
            (by decide)
        rw [meant_of_relative relative]
        exact iff_of_true rfl fun backslash => absurd backslash noBackslash
      · have backslash := head?_eq_backslash relative slash
        rw [meant_of_rooted relative, trail_join_here_iff relative]
        exact ⟨fun climbed _ => climbed, fun climbed => climbed backslash⟩
  rw [absolute, if_neg nonempty, Except.ok.injEq, ← names]
  constructor
  · intro same
    exact ⟨congrArg Path.anchor same, congrArg Path.trail same⟩
  · rintro ⟨anchor, trail⟩
    exact Path.eq_of_parts anchor trail

/-- A relative text is made absolute as what it stands for as soon as names can
be put behind the current directory. -/
theorem absolute_eq_meant_of_relative
    {text : String}
    (nonempty : text ≠ "")
    (relative : Path.anchorOf text = .relative)
    (ready : Path.IsReadyFor files.currentText (namesOf text)) :
    files.absolute text = .ok (files.meant text) := by
  have unseparated := (Path.anchorOf_eq_relative_iff text).mp relative
  have notSlash : text.toList.head? ≠ some '/' :=
    fun slash => absurd (unseparated '/' slash) (by decide)
  have notBackslash : text.toList.head? ≠ some '\\' :=
    fun back => absurd (unseparated '\\' back) (by decide)
  rw [← sightStart_of_relative notSlash] at ready
  rw [absolute_eq_meant_iff nonempty, anchorOf_absoluteText ready,
    meant_of_relative relative, sightStart_of_relative notSlash]
  exact ⟨rfl, fun backslash => absurd backslash notBackslash⟩

/-- A text that starts plain is made absolute as what it stands for, and so is
every relative text below the root. -/
theorem absolute_eq_meant
    {text : String} (proper : files.HasProperCurrent) (nonempty : text ≠ "")
    (plain :
      StartsPlain text ∨ Path.anchorOf text = .relative ∧ files.current ≠ []) :
    files.absolute text = .ok (files.meant text) := by
  rcases plain with plain | ⟨relative, below⟩
  · have start := anchorOf_of_startsPlain files plain
    by_cases slash : text.toList.head? = some '/'
    · have ready : Path.IsReadyFor (files.sightStart text) (namesOf text) := by
        refine Or.inr ⟨?_, plain⟩
        rcases files.sightStart_of_slash slash with root | share
        · rw [root]
          decide
        · rw [share]
          decide
      rw [if_pos slash] at start
      rw [absolute_eq_meant_iff nonempty, anchorOf_absoluteText ready,
        meant_of_rooted (Path.rooted_of_head? slash), slash]
      exact ⟨start.symm, fun backslash => absurd backslash (by decide)⟩
    · rw [if_neg slash] at start
      exact absolute_eq_meant_of_relative nonempty start
        (isReadyFor_currentText proper plain)
  · exact absolute_eq_meant_of_relative nonempty relative
      (Or.inl (isSteady_currentText proper below))

/-- What is cleaned already is made absolute as what it stands for. -/
theorem absolute_text_ofText (proper : files.HasProperCurrent) (text : String) :
    files.absolute (Path.ofText text).text = .ok (files.meant text) := by
  have plain :=
    startsPlain_of_backslash_not_mem
      (Path.backslash_not_mem_text (Path.ofText text))
  rw [absolute_eq_meant proper (Path.text_ne_empty _) (Or.inl plain),
    meant_text_ofText]

end FileSystem

end ConfigTree
