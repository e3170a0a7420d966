import Mathlib.Data.List.Nodup

/-!
# Lists of keyed values

Looking up a key finds a value that stands under it (`mem_of_lookup`), and the
value where each key stands once (`lookup_of_mem`).
-/

namespace ConfigTree.Keyed

variable {α : Type} {entries : List (String × α)} {key : String} {value : α}

theorem mem_of_lookup
    (found : entries.lookup key = some value) :
    (key, value) ∈ entries := by
  obtain ⟨before, after, split, _⟩ := List.lookup_eq_some_iff.mp found
  simp [split]

theorem lookup_eq_none_iff :
    entries.lookup key = none ↔ key ∉ entries.map Prod.fst := by
  rw [List.lookup_eq_none_iff, List.mem_map]
  constructor
  · rintro differs ⟨entry, member, rfl⟩
    have different := differs entry member
    simp at different
  · intro absent entry member
    exact bne_iff_ne.mpr fun same => absent ⟨entry, member, same.symm⟩

theorem exists_lookup_of_mem
    (present : key ∈ entries.map Prod.fst) :
    ∃ value, entries.lookup key = some value := by
  apply Option.ne_none_iff_exists'.mp
  intro missing
  exact lookup_eq_none_iff.mp missing present

theorem lookup_of_mem
    (distinct : (entries.map Prod.fst).Nodup)
    (member : (key, value) ∈ entries) :
    entries.lookup key = some value := by
  induction entries with
  | nil => exact absurd member List.not_mem_nil
  | cons first rest inductionHypothesis =>
      obtain ⟨other, old⟩ := first
      obtain ⟨fresh, later⟩ :
          other ∉ rest.map Prod.fst ∧ (rest.map Prod.fst).Nodup :=
        List.nodup_cons.mp distinct
      rw [List.lookup_cons]
      rcases List.mem_cons.mp member with isFirst | inRest
      · cases isFirst
        simp
      · have differs : key ≠ other := by
          rintro rfl
          exact fresh (List.mem_map_of_mem inRest)
        rw [beq_eq_false_iff_ne.mpr differs]
        exact inductionHypothesis later inRest

end ConfigTree.Keyed
