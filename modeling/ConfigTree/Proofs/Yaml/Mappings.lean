import ConfigTree.Yaml.Value
import Mathlib.Data.List.Nodup

/-!
# Tags and mappings of texts

A tag of a text's own can be written in two ways (`ownTag?_eq_some_iff`). A YAML
mapping whose keys are different texts is read entry by entry
(`compose_mapping_map`).
-/

namespace ConfigTree.Yaml.Value

/-! ## Tags -/

@[simp]
theorem tagName_bang
    {name : String} (named : name ≠ "") :
    tagName ("!" ++ name) = name := by
  obtain ⟨c, rest, chars⟩ := List.exists_cons_of_ne_nil fun none =>
    named (String.toList_eq_nil_iff.mp none)
  have bang : "!".toList = ['!'] := rfl
  rw [tagName, String.toList_append, bang, chars]
  exact String.toList_inj.mp (String.toList_ofList.trans chars.symm)

private theorem tagName_of_plain
    {tag : String} (plain : tag.toList.head? ≠ some '!') :
    tagName tag = tag := by
  rw [tagName]
  split
  · rename_i chars
    rw [chars] at plain
    exact absurd rfl plain
  · rfl

/-- A tag that starts with a mark is the mark and its name, unless it is only
the mark. -/
theorem eq_bang_tagName
    {tag : String}
    (own : isOwnTag tag = true) (more : tag ≠ "!") :
    tag = "!" ++ tagName tag := by
  obtain ⟨rest, chars⟩ := List.head?_eq_some_iff.mp (of_decide_eq_true own)
  have bang : "!".toList = ['!'] := rfl
  apply String.toList_inj.mp
  cases rest with
  | nil => exact absurd (String.toList_inj.mp (chars.trans bang.symm)) more
  | cons c later =>
      have named : tagName tag = String.ofList (c :: later) := by
        simp only [tagName, chars]
      rw [named, String.toList_append, bang, chars, String.toList_ofList,
        List.singleton_append]

/-- There are two ways to write a tag whose name starts with no mark. -/
theorem ownTag?_eq_some_iff
    {tag name : String}
    (named : name ≠ "") (plain : name.toList.head? ≠ some '!') :
    ownTag? tag = some name ↔
      tag = "!" ++ name ∨ tag = "!" ++ ("!" ++ name) := by
  have own : ∀ text, isOwnTag ("!" ++ text) = true := by
    intro text
    simp [isOwnTag]
  constructor
  · intro written
    rw [ownTag?] at written
    split at written
    · rename_i starts
      have inner : tagName (tagName tag) = name := Option.some.inj written
      have more : ∀ {text : String}, tagName text = name → text ≠ "!" := by
        rintro text same rfl
        rw [← same] at plain
        exact absurd rfl plain
      have outer : tag ≠ "!" := by
        rintro rfl
        exact more inner rfl
      rw [eq_bang_tagName starts outer]
      cases again : isOwnTag (tagName tag) with
      | false =>
          rw [tagName_of_plain (of_decide_eq_false again)] at inner
          exact Or.inl (by rw [inner])
      | true =>
          exact Or.inr (by rw [eq_bang_tagName again (more inner), inner])
    · cases written
  · rintro (rfl | rfl)
    · rw [ownTag?, if_pos (own _), tagName_bang named, tagName_of_plain plain]
    · rw [ownTag?, if_pos (own _), tagName_bang (by simp), tagName_bang named]

@[simp]
theorem wrap_none (value : Value) : wrap none value = value :=
  rfl

/-! ## Scalars -/

@[simp]
theorem same_string
    (text other : String) :
    same (.string text) (.string other) = decide (text = other) := by
  simp [same]

/-- A scalar that stands for itself, whichever its style. -/
theorem compose_string
    {depth : Nat} {style : Style} {text : String}
    (meant : ofScalar none style text = some (.string text)) :
    compose depth (.scalar none none style text) = pure (.string text) := by
  rw [compose]
  simp only [deref, Option.filter_none, meant, pure_bind, wrap_none]

/-- Behind a tag of the text's own, too, a scalar stands for itself. -/
theorem compose_tagged
    {depth : Nat} {style : Style} {tag name text : String}
    (own : ownTag? tag = some name)
    (meant : ofScalar none style text = some (.string text)) :
    compose depth (.scalar none (some tag) style text) =
      pure (.tagged name (.string text)) := by
  have marked : isOwnTag tag = true := by
    by_contra other
    rw [ownTag?, if_neg other] at own
    cases own
  have alone : (some tag).filter (fun tag => !isOwnTag tag) = none := by
    simp [marked]
  have wrapped :
      wrap (some tag) (.string text) = .tagged name (.string text) := by
    rw [wrap, Option.bind_some, own]
  rw [compose]
  simp only [deref, alone, meant, pure_bind, wrapped]

/-- A text holds what its node is composed to. -/
theorem ofText?_of_compose
    {source : String} {markup : Markup} {value : Value}
    (node : Markup.ofText? source = some (some markup))
    (meant : compose deepest markup = pure value) :
    ofText? source = some value := by
  rw [ofText?, node]
  dsimp only [Option.bind_some]
  rw [ofMarkup?, runCompose, meant]
  rfl

/-! ## Entries -/

section Entries

variable {α : Type} {depth : Nat} {key markup : α → Markup} {text : α → String}
  {value : α → Value} {list : List α}

private theorem addEntry_map
    {before : List α} {x : α} (fresh : text x ∉ before.map text) :
    addEntry (.string (text x)) (value x)
        (before.map fun y => (.string (text y), value y)) =
      some ((before ++ [x]).map fun y => (.string (text y), value y)) := by
  have absent :
      ((before.map fun y => (Value.string (text y), value y)).any fun entry =>
        entry.1.same (.string (text x))) = false := by
      rw [List.any_eq_false]
      intro entry member
      obtain ⟨y, among, rfl⟩ := List.mem_map.mp member
      rw [same_string, decide_eq_true_iff]
      exact fun same => fresh (same ▸ List.mem_map_of_mem among)
  rw [addEntry, absent, if_neg (by decide), List.map_append, List.map_singleton]

/-- Entries are added one by one behind those before them. The induction is on
the entries that are left. -/
theorem compose_entries_map
    (keys : ∀ x ∈ list, compose depth (key x) = pure (.string (text x)))
    (values : ∀ x ∈ list, compose depth (markup x) = pure (value x)) :
    ∀ before : List α, ((before ++ list).map text).Nodup →
      (list.map fun x => (key x, markup x)).foldlM
        (fun before entry => do
          let key ← compose depth entry.1
          let value ← compose depth entry.2
          match addEntry key value before with
          | some after => pure after
          | none => failure)
        (before.map fun x => (Value.string (text x), value x)) =
      (pure ((before ++ list).map fun x => (Value.string (text x), value x)) :
        Compose (List (Value × Value))) := by
  induction list with
  | nil =>
      intro before _
      rw [List.map_nil, List.foldlM_nil, List.append_nil]
  | cons first rest inductionHypothesis =>
      intro before distinct
      obtain ⟨keyHere, keysLater⟩ := List.forall_mem_cons.mp keys
      obtain ⟨valueHere, valuesLater⟩ := List.forall_mem_cons.mp values
      have fresh : text first ∉ before.map text := by
        rw [List.map_append, List.map_cons] at distinct
        exact fun member =>
          List.disjoint_of_nodup_append distinct member (List.mem_cons_self ..)
      have distinctLater : (((before ++ [first]) ++ rest).map text).Nodup := by
        rwa [List.append_assoc]
      have later := inductionHypothesis keysLater valuesLater _ distinctLater
      rw [List.map_cons, List.foldlM_cons]
      simp only [keyHere, valueHere, pure_bind, addEntry_map fresh]
      rw [later, List.append_assoc, List.singleton_append]

/-- A mapping whose keys are different texts is read entry by entry. -/
theorem compose_mapping_map
    (keys : ∀ x ∈ list, compose depth (key x) = pure (.string (text x)))
    (values : ∀ x ∈ list, compose depth (markup x) = pure (value x))
    (distinct : (list.map text).Nodup) :
    compose (depth + 1)
        (.mapping none none (list.map fun x => (key x, markup x))) =
      pure (.mapping (list.map fun x => (.string (text x), value x))) := by
  have all := compose_entries_map keys values [] distinct
  rw [compose]
  simp only [deref, pure_bind]
  refine (congrArg
    (fun read : Compose (List (Value × Value)) =>
      read >>= fun entries => pure (wrap none (.mapping entries))) all).trans ?_
  rw [pure_bind, wrap_none, List.nil_append]

end Entries

end ConfigTree.Yaml.Value
