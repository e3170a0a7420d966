import ConfigTree.Proofs.Reference.Segments
import ConfigTree.Proofs.Resolver.Result

/-!
# The grammar of references

Which strings are references, and to what, said without the order in which they
are checked. Main statement: a string is taken for what the grammar says that it
is, a package reference in one way only, and a string that starts like one and
is none comes out as a fault that carries it (`classify_accepts_grammar`).
-/

namespace ConfigTree.Reference

/-- A piece of a package's name: some text without a slash, and not a dot or two
behind any number of `@`. -/
structure IsSegment (segment : String) : Prop where
  nonempty : segment ≠ ""
  unseparated : '/' ∉ segment.toList
  visible : ∀ count, segment.toList ≠ List.replicate count '@' ++ ['.'] ∧
    segment.toList ≠ List.replicate count '@' ++ ['.', '.']

/-- A package's name is one segment, or two behind an `@`. -/
inductive IsPackageName : String → Prop where
  | plain
      {segment : String}
      (proper : IsSegment segment)
      (unmarked : segment.toList.head? ≠ some '@') :
      IsPackageName segment
  | withScope
      {scope segment : String}
      (nonempty : scope ≠ "")
      (properScope : IsSegment ("@" ++ scope))
      (proper : IsSegment segment) :
      IsPackageName ("@" ++ scope ++ "/" ++ segment)

/-- The text is a package's name, or one with a slash and a way inside the
package behind it. -/
structure Spells (text name subpath : String) : Prop where
  isName : IsPackageName name
  layout : text = name ∧ subpath = "" ∨ text = name ++ "/" ++ subpath
  unbroken : ∀ c ∈ text.toList, Text.isBlank c = false
  stays : ".." ∉ FileSystem.steps subpath

/-- The string is the mark, one blank and a text that spells the name and the
way. -/
def RefersTo (value name subpath : String) : Prop :=
  ∃ text, value = "[module]" ++ (" " ++ text) ∧ Spells text name subpath

/-! ## Segments -/

/-- What stands behind the `@`s at the start of a segment. -/
theorem exists_replicate_append_dropWhile (segment : List Char) :
    ∃ count,
      segment = List.replicate count '@' ++ segment.dropWhile (· = '@') := by
  induction segment with
  | nil => exact ⟨0, rfl⟩
  | cons first rest inductionHypothesis =>
      by_cases marked : first = '@'
      · obtain ⟨count, same⟩ := inductionHypothesis
        subst marked
        refine ⟨count + 1, ?_⟩
        rw [List.dropWhile_cons_of_pos (by simp), List.replicate_succ,
          List.cons_append, ← same]
      · refine ⟨0, ?_⟩
        rw [List.dropWhile_cons_of_neg (by simpa using marked)]
        rfl

private theorem dropWhile_replicate_append
    (count : Nat) {bare : List Char} (other : bare.head? ≠ some '@') :
    (List.replicate count '@' ++ bare).dropWhile (· = '@') = bare := by
  induction count with
  | zero =>
      cases bare with
      | nil => rfl
      | cons first rest =>
          have different : first ≠ '@' := fun same => other (by rw [same]; rfl)
          exact List.dropWhile_cons_of_neg (by simpa using different)
  | succ count inductionHypothesis =>
      rw [List.replicate_succ, List.cons_append,
        List.dropWhile_cons_of_pos (by simp), inductionHypothesis]

private theorem isDots_eq_false_iff {segment : List Char} :
    isDots segment = false ↔
      ∀ count,
        segment ≠ List.replicate count '@' ++ ['.'] ∧
        segment ≠ List.replicate count '@' ++ ['.', '.'] := by
  have found : isDots segment = true ↔
      segment.dropWhile (· = '@') = ['.'] ∨
          segment.dropWhile (· = '@') = ['.', '.'] := by
    simp only [isDots, Bool.or_eq_true, decide_eq_true_eq]
  rw [← Bool.not_eq_true, found, not_or]
  constructor
  · rintro ⟨notDot, notDots⟩ count
    refine ⟨fun same => notDot ?_, fun same => notDots ?_⟩
    · rw [same, dropWhile_replicate_append count (by decide)]
    · rw [same, dropWhile_replicate_append count (by decide)]
  · intro visible
    obtain ⟨count, split⟩ := exists_replicate_append_dropWhile segment
    refine ⟨fun dot => (visible count).1 ?_, fun dots => (visible count).2 ?_⟩
    · rw [← dot]
      exact split
    · rw [← dots]
      exact split

theorem isSegment_iff {segment : String} :
    IsSegment segment ↔
      '/' ∉ segment.toList ∧ segment.toList ≠ [] ∧
        isDots segment.toList = false := by
  rw [isDots_eq_false_iff, Ne, String.toList_eq_nil_iff]
  exact ⟨fun ⟨nonempty, plain, visible⟩ => ⟨plain, nonempty, visible⟩,
    fun ⟨plain, nonempty, visible⟩ => ⟨nonempty, plain, visible⟩⟩

/-! ## Texts cut at slashes -/

private theorem cut_of_not_mem
    {text : List Char} (plain : '/' ∉ text) :
    cut text = (text, none) := by
  have nothing : text.dropWhile (· ≠ '/') = [] := by
    apply List.dropWhile_eq_nil_iff.mpr
    intro c member
    simpa using fun same : c = '/' => plain (same ▸ member)
  unfold cut
  rw [nothing]

private theorem cut_append
    {first : List Char} (plain : '/' ∉ first) (after : List Char) :
    cut (first ++ '/' :: after) = (first, some after) := by
  have passes : ∀ c ∈ first, decide (c ≠ '/') = true := by
    intro c member
    simpa using fun same : c = '/' => plain (same ▸ member)
  have behind : (first ++ '/' :: after).dropWhile (· ≠ '/') = '/' :: after := by
    rw [List.dropWhile_append_of_pos passes,
      List.dropWhile_cons_of_neg (by simp)]
  have before : (first ++ '/' :: after).takeWhile (· ≠ '/') = first := by
    rw [List.takeWhile_append_of_pos passes,
      List.takeWhile_cons_of_neg (by simp), List.append_nil]
  unfold cut
  rw [behind, before]

/-- Behind a name there is nothing, or a slash and the subpath. -/
def Follows (tail subpath : List Char) : Prop :=
  tail = [] ∧ subpath = [] ∨ tail = '/' :: subpath

private theorem cut_append_of_follows
    {first tail subpath : List Char}
    (plain : '/' ∉ first)
    (follows : Follows tail subpath) :
    ∃ rest, cut (first ++ tail) = (first, rest) ∧ rest.getD [] = subpath := by
  rcases follows with ⟨rfl, rfl⟩ | rfl
  · rw [List.append_nil]
    exact ⟨none, cut_of_not_mem plain, rfl⟩
  · exact ⟨some subpath, cut_append plain subpath, rfl⟩

private theorem exists_follows (text : List Char) :
    ∃ first tail subpath,
      '/' ∉ first ∧ text = first ++ tail ∧ Follows tail subpath := by
  by_cases slash : '/' ∈ text
  · obtain ⟨first, after, split, plain⟩ := List.eq_append_cons_of_mem slash
    exact ⟨first, '/' :: after, after, plain, split, .inr rfl⟩
  · exact ⟨text, [], [], slash, (List.append_nil text).symm, .inl ⟨rfl, rfl⟩⟩

/-! ## Texts behind the mark -/

section PackageTexts

variable {text first tail subpath : List Char}

private theorem ofPackageText_of_unmarked
    (nonempty : text ≠ [])
    (unbroken : ∀ c ∈ text, Text.isBlank c = false)
    (unmarked : text.head? ≠ some '@')
    (plain : '/' ∉ first)
    (layout : text = first ++ tail)
    (follows : Follows tail subpath) :
    ofPackageText text = ofSegments [first] subpath := by
  obtain ⟨rest, cutText, way⟩ := cut_append_of_follows plain follows
  rw [← layout] at cutText
  have noBlank : text.any Text.isBlank = false :=
    List.any_eq_false.mpr (by simpa using unbroken)
  unfold ofPackageText
  rw [if_neg (by simpa using nonempty), noBlank, if_neg Bool.false_ne_true,
    cutText]
  dsimp only
  rw [if_neg unmarked, way]

private theorem ofPackageText_of_marked
    {scope segment : List Char}
    (unbroken : ∀ c ∈ text, Text.isBlank c = false)
    (marked : text.head? = some '@')
    (plainScope : '/' ∉ scope)
    (plain : '/' ∉ segment)
    (layout : text = scope ++ '/' :: (segment ++ tail))
    (follows : Follows tail subpath) :
    ofPackageText text = ofSegments [scope, segment] subpath := by
  obtain ⟨rest, cutSecond, way⟩ := cut_append_of_follows plain follows
  have cutText : cut text = (scope, some (segment ++ tail)) :=
    layout ▸ cut_append plainScope _
  have nonempty : text.isEmpty = false := by
    cases text with
    | nil => cases marked
    | cons c rest => rfl
  have noBlank : text.any Text.isBlank = false :=
    List.any_eq_false.mpr (by simpa using unbroken)
  unfold ofPackageText
  rw [nonempty, if_neg Bool.false_ne_true, noBlank, if_neg Bool.false_ne_true,
    cutText]
  dsimp only
  rw [if_pos marked, cutSecond]
  dsimp only
  rw [way]

private theorem ofPackageText_of_scope_alone
    {reference : Reference}
    (marked : text.head? = some '@')
    (plain : '/' ∉ text) :
    ofPackageText text ≠ .ok reference := by
  intro accepted
  unfold ofPackageText at accepted
  rw [cut_of_not_mem plain] at accepted
  dsimp only at accepted
  rw [if_pos marked] at accepted
  split at accepted
  · cases accepted
  · split at accepted
    · cases accepted
    · cases accepted

private theorem unbroken_of_ofPackageText
    {reference : Reference} (accepted : ofPackageText text = .ok reference) :
    text ≠ [] ∧ ∀ c ∈ text, Text.isBlank c = false := by
  unfold ofPackageText at accepted
  split at accepted
  case isTrue => cases accepted
  case isFalse nonempty =>
    split at accepted
    case isTrue => cases accepted
    case isFalse unbroken =>
      exact ⟨by simpa using nonempty, by simpa using unbroken⟩

end PackageTexts

/-! ## Package texts and the grammar -/

private theorem layout_iff {text name subpath : String} :
    (text = name ∧ subpath = "" ∨ text = name ++ "/" ++ subpath) ↔
      ∃ tail,
        text.toList = name.toList ++ tail ∧ Follows tail subpath.toList := by
  constructor
  · rintro (⟨rfl, rfl⟩ | rfl)
    · exact ⟨[], (List.append_nil _).symm, .inl ⟨rfl, rfl⟩⟩
    · exact ⟨'/' :: subpath.toList, by simp, .inr rfl⟩
  · rintro ⟨tail, split, ⟨rfl, none⟩ | rfl⟩
    · rw [List.append_nil] at split
      exact .inl ⟨String.toList_inj.mp split, String.toList_eq_nil_iff.mp none⟩
    · exact .inr (String.toList_inj.mp (by simp [split]))

/-- What is accepted without an `@` has a name of one segment. -/
theorem spells_of_unmarked
    {text name subpath : String} (unmarked : text.toList.head? ≠ some '@')
    (accepted : ofPackageText text.toList = .ok (.package name subpath)) :
    Spells text name subpath := by
  obtain ⟨nonempty, unbroken⟩ := unbroken_of_ofPackageText accepted
  obtain ⟨first, tail, way, plain, split, follows⟩ := exists_follows text.toList
  rw [ofPackageText_of_unmarked nonempty unbroken unmarked plain split follows,
    ofSegments_eq_ok_iff] at accepted
  obtain ⟨all, _, stays, same⟩ := accepted
  injection same with nameSame subpathSame
  have nameChars : name.toList = first := by
    rw [nameSame, String.toList_ofList, List.intercalate_singleton]
  have subpathChars : subpath.toList = way := by
    rw [subpathSame, String.toList_ofList]
  subst nameChars subpathChars
  have visible := all name.toList (List.mem_singleton.mpr rfl)
  rw [split, List.head?_append_of_ne_nil _ visible.1] at unmarked
  exact ⟨.plain (isSegment_iff.mpr ⟨plain, visible⟩) unmarked,
    layout_iff.mpr ⟨tail, split, follows⟩, unbroken,
    fun climbs => stays ((dots_mem_steps_iff subpath).mp climbs)⟩

/-- What is accepted with an `@` has a name of two segments. -/
theorem spells_of_marked
    {text name subpath : String} (marked : text.toList.head? = some '@')
    (accepted : ofPackageText text.toList = .ok (.package name subpath)) :
    Spells text name subpath := by
  obtain ⟨nonempty, unbroken⟩ := unbroken_of_ofPackageText accepted
  by_cases slash : '/' ∈ text.toList
  · obtain ⟨first, after, split, plainFirst⟩ := List.eq_append_cons_of_mem slash
    obtain ⟨segment, tail, way, plain, rfl, follows⟩ := exists_follows after
    rw [ofPackageText_of_marked unbroken marked plainFirst plain split follows,
      ofSegments_eq_ok_iff] at accepted
    obtain ⟨all, notAlone, stays, same⟩ := accepted
    obtain ⟨visibleFirst, visible⟩ :
        (first ≠ [] ∧ isDots first = false) ∧ segment ≠ [] ∧
          isDots segment = false :=
      ⟨all first (by simp), all segment (by simp)⟩
    rw [split, List.head?_append_of_ne_nil _ visibleFirst.1] at marked
    obtain ⟨scope, rfl⟩ : ∃ scope, first = '@' :: scope :=
      ⟨first.tail, List.eq_cons_of_mem_head? marked⟩
    injection same with nameSame subpathSame
    have subpathChars : subpath.toList = way := by
      rw [subpathSame, String.toList_ofList]
    subst subpathChars
    have nameParts :
        name = "@" ++ String.ofList scope ++ "/" ++ String.ofList segment :=
      nameSame.trans (String.toList_inj.mp (by simp [List.intercalate]))
    refine ⟨?_, layout_iff.mpr ⟨tail, ?_, follows⟩, unbroken,
      fun climbs => stays ((dots_mem_steps_iff subpath).mp climbs)⟩
    · rw [nameParts]
      refine .withScope ?_ (isSegment_iff.mpr ?_) (isSegment_iff.mpr ?_)
      · intro none
        have alone : scope = [] := by
          rw [← String.toList_ofList (l := scope), none]; rfl
        exact notAlone (by rw [alone]; rfl)
      · have chars : ("@" ++ String.ofList scope).toList = '@' :: scope := by
          simp
        rw [chars]
        exact ⟨plainFirst, visibleFirst⟩
      · rw [String.toList_ofList]
        exact ⟨plain, visible⟩
    · rw [split, nameParts]
      simp
  · exact absurd accepted (ofPackageText_of_scope_alone marked slash)

private theorem ofPackageText_of_spells
    {text name subpath : String} (spells : Spells text name subpath) :
    ofPackageText text.toList = .ok (.package name subpath) := by
  obtain ⟨isName, layout, unbroken, stays⟩ := spells
  rw [dots_mem_steps_iff] at stays
  obtain ⟨tail, split, follows⟩ := layout_iff.mp layout
  cases isName with
  | plain proper unmarked =>
      obtain ⟨plain, visible⟩ := isSegment_iff.mp proper
      have unmarkedText : text.toList.head? ≠ some '@' := by
        rwa [split, List.head?_append_of_ne_nil _ visible.1]
      have nonempty : text.toList ≠ [] := by
        rw [split]
        exact List.append_ne_nil_of_left_ne_nil visible.1 tail
      rw [ofPackageText_of_unmarked nonempty unbroken unmarkedText plain split
          follows, ofSegments_eq_ok_iff]
      refine ⟨by simpa using visible,
        by simpa using fun same => unmarked (by rw [same]; rfl), stays, ?_⟩
      rw [List.intercalate_singleton, String.ofList_toList,
        String.ofList_toList]
  | @withScope scope segment nonempty properScope proper =>
      obtain ⟨plainFirst, visibleFirst⟩ := isSegment_iff.mp properScope
      obtain ⟨plain, visible⟩ := isSegment_iff.mp proper
      have splitAll :
          text.toList =
            ("@" ++ scope).toList ++ '/' :: (segment.toList ++ tail) := by
        rw [split]
        simp
      have marked : text.toList.head? = some '@' := by
        rw [splitAll]
        simp
      rw [ofPackageText_of_marked unbroken marked plainFirst plain splitAll
          follows, ofSegments_eq_ok_iff]
      refine ⟨List.forall_mem_cons.mpr ⟨visibleFirst, by simpa using visible⟩,
        ?_, stays, ?_⟩
      · intro alone
        apply nonempty
        apply String.toList_eq_nil_iff.mp
        simpa using alone
      · rw [String.ofList_toList]
        exact congrArg (Reference.package · subpath)
          (String.toList_inj.mp (by simp [List.intercalate]))

/-- The text behind the mark of a package reference is accepted exactly if it
spells a name and a way. -/
theorem ofPackageText_eq_ok_iff {text name subpath : String} :
    ofPackageText text.toList = .ok (.package name subpath) ↔
      Spells text name subpath := by
  refine ⟨fun accepted => ?_, ofPackageText_of_spells⟩
  by_cases marked : text.toList.head? = some '@'
  · exact spells_of_marked marked accepted
  · exact spells_of_unmarked marked accepted

/-! ## All strings -/

private theorem isPrefixOf_iff (mark value : String) :
    mark.toList.isPrefixOf value.toList = true ↔
      ∃ rest, value = mark ++ rest := by
  rw [List.isPrefixOf_iff_prefix]
  constructor
  · rintro ⟨rest, same⟩
    exact ⟨String.ofList rest, String.toList_inj.mp (by simp [same])⟩
  · rintro ⟨rest, rfl⟩
    exact ⟨rest.toList, by simp⟩

private theorem isPrefixOf_relativeMark_iff (value : String) :
    relativeMark.isPrefixOf value.toList = true ↔
      ∃ rest, value = "./" ++ rest :=
  isPrefixOf_iff "./" value

private theorem isPrefixOf_packageMark_iff (value : String) :
    packageMark.isPrefixOf value.toList = true ↔
      ∃ rest, value = "[module]" ++ rest :=
  isPrefixOf_iff "[module]" value

private theorem ofPackageText_ne_relative
    {chars : List Char} {text : String} :
    ofPackageText chars ≠ .ok (.relative text) := by
  intro accepted
  obtain ⟨segments, subpath, _, _, made⟩ :=
    exists_segments_of_ofPackageText accepted
  obtain ⟨_, _, _, same⟩ := ofSegments_eq_ok_iff.mp made
  cases same

@[simp]
theorem classify_of_relative (rest : String) :
    classify ("./" ++ rest) = .ok (some (.relative ("./" ++ rest))) := by
  unfold classify
  dsimp only
  rw [if_pos ((isPrefixOf_relativeMark_iff _).mpr ⟨rest, rfl⟩)]

private theorem classify_of_literal
    {value : String}
    (notRelative : ¬∃ rest, value = "./" ++ rest)
    (notPackage : ¬∃ rest, value = "[module]" ++ rest) :
    classify value = .ok none := by
  rw [← isPrefixOf_relativeMark_iff] at notRelative
  rw [← isPrefixOf_packageMark_iff] at notPackage
  unfold classify
  dsimp only
  rw [if_neg notRelative, if_neg notPackage]

private theorem not_relative_of_mark
    (rest : String) :
    ¬∃ other, "[module]" ++ rest = "./" ++ other := by
  rintro ⟨other, same⟩
  have heads := congrArg (fun text : String => text.toList.head?) same
  simp at heads

@[simp]
theorem drop_packageMark
    (rest : String) :
    ("[module]" ++ rest).toList.drop packageMark.length = rest.toList := by
  rw [String.toList_append]
  exact List.drop_left

private theorem classify_of_blank (text : String) :
    classify ("[module]" ++ (" " ++ text)) =
      (ofPackageText text.toList).map some := by
  have notRelative := not_relative_of_mark (" " ++ text)
  rw [← isPrefixOf_relativeMark_iff] at notRelative
  unfold classify
  dsimp only
  rw [if_neg notRelative, if_pos ((isPrefixOf_packageMark_iff _).mpr ⟨_, rfl⟩),
    drop_packageMark, String.toList_append]
  rfl

private theorem classify_of_no_blank
    {rest : String} (closed : ∀ text, rest ≠ " " ++ text) :
    classify ("[module]" ++ rest) = .error .noBlankBehindMark := by
  have notRelative := not_relative_of_mark rest
  rw [← isPrefixOf_relativeMark_iff] at notRelative
  unfold classify
  dsimp only
  rw [if_neg notRelative,
    if_pos ((isPrefixOf_packageMark_iff _).mpr ⟨rest, rfl⟩), drop_packageMark]
  split
  · rename_i text behind
    exact absurd (String.toList_inj.mp (by simp [behind]))
      (closed (String.ofList text))
  · rfl

private theorem classify_of_refersTo
    {value name subpath : String} (refers : RefersTo value name subpath) :
    classify value = .ok (some (.package name subpath)) := by
  obtain ⟨text, rfl, spells⟩ := refers
  rw [classify_of_blank, ofPackageText_of_spells spells]
  rfl

/-- A string that starts like a package reference is one, or malformed. -/
theorem classify_of_mark (rest : String) :
    (∃ name subpath, RefersTo ("[module]" ++ rest) name subpath) ∨
      ∃ reason, classify ("[module]" ++ rest) = .error reason := by
  by_cases closed : ∀ text, rest ≠ " " ++ text
  · exact .inr ⟨_, classify_of_no_blank closed⟩
  · obtain ⟨text, rfl⟩ := by simpa using closed
    cases parsed : ofPackageText text.toList with
    | error reason =>
        refine .inr ⟨reason, ?_⟩
        rw [classify_of_blank, parsed]
        rfl
    | ok reference =>
        cases reference with
        | relative other => exact absurd parsed ofPackageText_ne_relative
        | package name subpath =>
            exact
              .inl ⟨name, subpath, text, rfl, ofPackageText_eq_ok_iff.mp parsed⟩

/-- What becomes of a string, by how it starts. -/
theorem classify_cases (value : String) :
    ((∃ rest, value = "./" ++ rest) ∧ (¬∃ rest, value = "[module]" ++ rest) ∧
      classify value = .ok (some (.relative value))) ∨
    ((¬∃ rest, value = "./" ++ rest) ∧ (∃ rest, value = "[module]" ++ rest) ∧
      ((∃ name subpath, RefersTo value name subpath) ∨
        ∃ reason, classify value = .error reason)) ∨
    ((¬∃ rest, value = "./" ++ rest) ∧ (¬∃ rest, value = "[module]" ++ rest) ∧
      classify value = .ok none) := by
  by_cases relative : ∃ rest, value = "./" ++ rest
  · obtain ⟨rest, rfl⟩ := relative
    refine .inl ⟨⟨rest, rfl⟩, fun marked => ?_, classify_of_relative rest⟩
    obtain ⟨other, same⟩ := marked
    exact not_relative_of_mark other ⟨rest, same.symm⟩
  · by_cases marked : ∃ rest, value = "[module]" ++ rest
    · obtain ⟨rest, rfl⟩ := marked
      exact .inr (.inl ⟨relative, ⟨rest, rfl⟩, classify_of_mark rest⟩)
    · exact .inr (.inr ⟨relative, marked, classify_of_literal relative marked⟩)

private theorem classify_eq_relative_iff {value text : String} :
    classify value = .ok (some (.relative text)) ↔
      text = value ∧ ∃ rest, value = "./" ++ rest := by
  rcases classify_cases value with
    ⟨relative, _, found⟩ | ⟨other, _, ⟨name, subpath, refers⟩ | ⟨reason, found⟩⟩
      | ⟨other, _, found⟩
  · simp [found, relative, eq_comm]
  · simp [classify_of_refersTo refers, other]
  · simp [found, other]
  · simp [found, other]

theorem classify_eq_none_iff {value : String} :
    classify value = .ok none ↔ (¬∃ rest, value = "./" ++ rest) ∧ ¬∃ rest,
      value = "[module]" ++ rest := by
  rcases classify_cases value with
    ⟨relative, _, found⟩ |
      ⟨_, marked, ⟨name, subpath, refers⟩ | ⟨reason, found⟩⟩ |
      ⟨other, unmarked, found⟩
  · simp [found, relative]
  · simp [classify_of_refersTo refers, marked]
  · simp [found, marked]
  · simp [found, other, unmarked]

private theorem classify_eq_package_iff {value name subpath : String} :
    classify value = .ok (some (.package name subpath)) ↔
      RefersTo value name subpath := by
  refine ⟨fun accepted => ?_, classify_of_refersTo⟩
  rcases classify_cases value with
    ⟨_, _, found⟩ | ⟨_, _, ⟨other, way, refers⟩ | ⟨reason, found⟩⟩ |
      ⟨_, _, found⟩
  · simp [found] at accepted
  · obtain ⟨rfl, rfl⟩ : other = name ∧ way = subpath := by
      simpa [classify_of_refersTo refers] using accepted
    exact refers
  · simp [found] at accepted
  · simp [found] at accepted

private theorem exists_malformation_iff {value : String} :
    (∃ reason, classify value = .error reason) ↔
      (∃ rest, value = "[module]" ++ rest) ∧
        ∀ name subpath, ¬RefersTo value name subpath := by
  simp only [← classify_eq_package_iff]
  rcases classify_cases value with
    ⟨_, unmarked, found⟩ |
      ⟨_, marked, ⟨name, subpath, refers⟩ | ⟨reason, found⟩⟩ |
      ⟨_, unmarked, found⟩
  · simp [found, unmarked]
  · simp [classify_of_refersTo refers]
  · simp [found, marked]
  · simp [found, unmarked]

/-- A string that starts like a reference and is none ends a run with a fault
that carries it. -/
theorem run_of_malformed
    {value : String}
    {reason : Malformation}
    (malformed : classify value = .error reason)
    (setting : Setting)
    (cache : PackageCache) (directory : Path) :
    setting.run cache directory (.string value) =
      (.error ⟨[[]], .malformedReference value reason⟩, .start cache) := by
  unfold Setting.run Setting.resolveTree
  rw [Node.resolveWith, Resolution.run_under]
  unfold Setting.resolveString
  rw [malformed]
  rfl

/-- A string is a relative reference exactly if it starts with `./`, and stands
for itself exactly if it starts neither so nor with the mark of packages. It
refers to a package, under one name and with one way inside, exactly as the
grammar says; a string with the mark that does not is malformed, and is named by
the fault. -/
theorem classify_accepts_grammar (value : String) :
    (∀ text,
      classify value = .ok (some (.relative text)) ↔
        text = value ∧ ∃ rest, value = "./" ++ rest) ∧
    (classify value = .ok none ↔ (¬∃ rest, value = "./" ++ rest) ∧ ¬∃ rest,
      value = "[module]" ++ rest) ∧
    (∀ name subpath,
      classify value = .ok (some (.package name subpath)) ↔
        RefersTo value name subpath) ∧
    ((∃ reason, classify value = .error reason) ↔
      (∃ rest, value = "[module]" ++ rest) ∧
        ∀ name subpath, ¬RefersTo value name subpath) ∧
    (∀ reason,
      classify value = .error reason →
        ∀ (setting : Setting) cache directory,
          setting.run cache directory (.string value) =
            (.error ⟨[[]], .malformedReference value reason⟩, .start cache)) ∧
    ∀ name subpath other way,
      RefersTo value name subpath → RefersTo value other way →
        name = other ∧ subpath = way := by
  refine ⟨fun _ => classify_eq_relative_iff, classify_eq_none_iff,
    fun _ _ => classify_eq_package_iff, exists_malformation_iff,
    fun _ malformed => run_of_malformed malformed, ?_⟩
  intro name subpath other way refers again
  have same :=
    (classify_of_refersTo refers).symm.trans (classify_of_refersTo again)
  simpa using same

end ConfigTree.Reference
