import ConfigTree.Package.Search
import Mathlib.Data.List.Basic

/-!
# Names of entries

The names that entries can have, and texts with such names behind them. Main
statement: names with slashes between them are joined like the names one after
the other (`joinText_intercalate`), and without a backslash a text has the same
names for a path and for a walk (`pieces_eq_steps`).
-/

namespace ConfigTree

/-- A name that an entry of a directory can have. -/
def IsEntryName (name : String) : Prop :=
  name ≠ "" ∧ name ≠ "." ∧ name ≠ ".." ∧ '/' ∉ name.toList

instance (name : String) : Decidable (IsEntryName name) :=
  inferInstanceAs (Decidable (_ ∧ _))

/-- Every entry below the root has a name that an entry can have. -/
def FileSystem.HasEntryNames (files : FileSystem) : Prop :=
  ∀ place ∈ files.places, ∀ name ∈ place, IsEntryName name

instance (files : FileSystem) : Decidable files.HasEntryNames :=
  inferInstanceAs (Decidable (∀ place ∈ files.places, _))

/-- A path's text with further names behind it. -/
def joinNames (text : String) (way : List String) : String :=
  way.foldl joinText text

theorem IsEntryName.head?_ne
    {name : String} (proper : IsEntryName name) :
    name.toList.head? ≠ some '/' := by
  intro slash
  exact proper.2.2.2 (List.mem_of_head? slash)

@[simp]
theorem head?_slash_append
    (text : String) :
    ("/" ++ text).toList.head? = some '/' := by
  have slash : "/".toList = ['/'] := rfl
  rw [String.toList_append, slash, List.singleton_append, List.head?_cons]

@[simp]
theorem joinNames_concat (text : String) (way : List String) (name : String) :
    joinNames text (way ++ [name]) = joinText (joinNames text way) name := by
  rw [joinNames, List.foldl_append]
  rfl

/-- A slash is put between a text and a part unless there is one. -/
theorem joinText_cases
    (text : String) {part : String} (relative : part.toList.head? ≠ some '/') :
    (joinText text part = text ++ part ∧
      (text = "" ∨ ∃ before, text = before ++ "/")) ∨
      (joinText text part = text ++ "/" ++ part ∧ text ≠ "" ∧
        text.toList.getLast? ≠ some '/') := by
  unfold joinText
  rw [if_neg relative]
  by_cases closed : text = "" ∨ text.toList.getLast? = some '/'
  · rw [if_pos closed]
    refine Or.inl ⟨rfl, closed.imp_right fun slash => ?_⟩
    obtain ⟨chars, layout⟩ := List.getLast?_eq_some_iff.mp slash
    refine ⟨String.ofList chars, String.toList_inj.mp ?_⟩
    rw [layout, String.toList_append, String.toList_ofList]
    rfl
  · rw [if_neg closed]
    exact Or.inr ⟨rfl, not_or.mp closed⟩

/-- The same text stands before every part that is joined to a base. -/
theorem exists_before_joinText (base : String) :
    ∃ before, ∀ part : String, part.toList.head? ≠ some '/' →
      joinText base part = before ++ part := by
  by_cases closed : base = "" ∨ base.toList.getLast? = some '/'
  · refine ⟨base, fun part relative => ?_⟩
    simp only [joinText, if_neg relative, if_pos closed]
  · refine ⟨base ++ "/", fun part relative => ?_⟩
    simp only [joinText, if_neg relative, if_neg closed]

private theorem joinText_append_name
    (before : String) {name part : String} (proper : IsEntryName name)
    (relative : part.toList.head? ≠ some '/') :
    joinText (before ++ name) part = before ++ name ++ "/" ++ part := by
  have nonempty : name.toList ≠ [] :=
    fun none => proper.1 (String.toList_eq_nil_iff.mp none)
  obtain ⟨last, lastOf⟩ : ∃ last, name.toList.getLast? = some last :=
    ⟨name.toList.getLast nonempty, List.getLast?_eq_some_getLast nonempty⟩
  have lastOfWhole : (before ++ name).toList.getLast? = some last := by
    rw [String.toList_append, List.getLast?_append, lastOf]
    rfl
  have continued :
      ¬(before ++ name = "" ∨ (before ++ name).toList.getLast? = some '/') := by
    rw [lastOfWhole]
    intro either
    rcases either with none | slash
    · rw [none] at lastOfWhole
      cases lastOfWhole
    · obtain rfl := Option.some.inj slash
      exact proper.2.2.2 (List.mem_of_getLast? lastOf)
  simp only [joinText, if_neg relative, if_neg continued]

theorem head?_intercalate_ne :
    ∀ {way : List String}, (∀ name ∈ way, IsEntryName name) →
      ("/".intercalate way).toList.head? ≠ some '/'
  | [], _ => by simp
  | [name], all => by
      rw [String.intercalate_singleton]
      exact (all name (List.mem_cons_self ..)).head?_ne
  | name :: next :: rest, all => by
      have proper : IsEntryName name := all name (List.mem_cons_self ..)
      have nonempty : name.toList ≠ [] :=
        fun none => proper.1 (String.toList_eq_nil_iff.mp none)
      rw [String.intercalate_cons_cons, String.append_assoc,
        String.toList_append, List.head?_append_of_ne_nil _ nonempty]
      exact proper.head?_ne

/-- Names with slashes between them are joined like the names one after the
other. -/
theorem joinText_intercalate :
    ∀ (base : String) {way : List String},
      way ≠ [] → (∀ name ∈ way, IsEntryName name) →
        joinText base ("/".intercalate way) = joinNames base way
  | _, [], nonempty, _ => absurd rfl nonempty
  | base, [name], _, _ => by
      rw [String.intercalate_singleton]
      rfl
  | base, name :: next :: rest, _, all => by
      have proper : IsEntryName name := all name (List.mem_cons_self ..)
      have later : ∀ other ∈ next :: rest, IsEntryName other :=
        fun other member => all other (List.mem_cons_of_mem _ member)
      have wholeHead := head?_intercalate_ne all
      obtain ⟨before, joined⟩ := exists_before_joinText base
      calc joinText base ("/".intercalate (name :: next :: rest))
          = before ++ (name ++ "/" ++ "/".intercalate (next :: rest)) := by
            rw [joined _ wholeHead, String.intercalate_cons_cons]
        _ = joinText (before ++ name) ("/".intercalate (next :: rest)) := by
            rw [joinText_append_name before proper (head?_intercalate_ne later)]
            simp only [String.append_assoc]
        _ = joinText (joinText base name) ("/".intercalate (next :: rest)) := by
            rw [joined name proper.head?_ne]
        _ = joinNames base (name :: next :: rest) :=
            joinText_intercalate (joinText base name) (by simp) later

/-! ## Names of a text -/

private theorem splitOnP_congr
    {α : Type} {p q : α → Bool} :
    ∀ {whole : List α}, (∀ x ∈ whole, p x = q x) →
      whole.splitOnP p = whole.splitOnP q
  | [], _ => by simp
  | first :: rest, agree => by
      have here : p first = q first := agree first (List.mem_cons_self ..)
      have later : rest.splitOnP p = rest.splitOnP q :=
        splitOnP_congr fun x member => agree x (List.mem_cons_of_mem _ member)
      rw [List.splitOnP_cons_eq_if_modifyHead,
        List.splitOnP_cons_eq_if_modifyHead, here, later]

theorem pieces_eq_steps
    {text : String} (plain : '\\' ∉ text.toList) :
    Path.pieces text = FileSystem.steps text := by
  unfold Path.pieces FileSystem.steps
  rw [List.splitOn_eq_splitOnP]
  congr 1
  apply splitOnP_congr
  intro c member
  have notBackslash : c ≠ '\\' := fun same => plain (same ▸ member)
  by_cases slash : c = '/'
  · simp [isSeparator, slash]
  · simp [isSeparator, slash, notBackslash]

end ConfigTree
