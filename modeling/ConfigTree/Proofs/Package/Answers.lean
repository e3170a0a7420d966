import ConfigTree.Package.Cache

/-!
# What a cache answers

A cache with a search behind it stands for one answer to each name, and asking
it changes none of these answers. Main statements: asking for names in a row
leaves the answers as they are (`answer_locateAll`), and what the cache holds
afterwards (`answers_locateAll`, `searches_locateAll`).
-/

namespace ConfigTree.PackageCache

/-- The answer that a name gets: the known one, or that of the search. -/
def answer
    (search : String → Option String) (cache : PackageCache) (name : String) :
    Option String :=
  (cache.answers.lookup name).getD (search name)

def names (cache : PackageCache) : List String :=
  cache.answers.map Prod.fst

/-- The cache after it has been asked for names in a row. -/
def locateAll
    (search : String → Option String)
    (asked : List String)
    (cache : PackageCache) :
    PackageCache :=
  asked.foldl (fun cache name => (cache.locate search name).2) cache

/-- The asked names that are not known when they are asked for. -/
def unknown : List String → List String → List String
  | _, [] => []
  | known, name :: rest =>
      if name ∈ known then
        unknown known rest
      else
        name :: unknown (name :: known) rest

variable {search : String → Option String}

theorem lookup_eq_none_iff {name : String} {cache : PackageCache} :
    cache.answers.lookup name = none ↔ name ∉ cache.names := by
  rw [List.lookup_eq_none_iff, names, List.mem_map]
  constructor
  · intro all given
    obtain ⟨entry, member, same⟩ := given
    simpa [same] using all entry member
  · intro absent entry member
    apply bne_iff_ne.mpr
    intro same
    exact absent ⟨entry, member, same.symm⟩

theorem locate_of_known
    {cache : PackageCache} {name : String} (known : name ∈ cache.names) :
    cache.locate search name = (cache.answer search name, cache) := by
  unfold locate locateIn answer
  cases found : cache.answers.lookup name with
  | none => exact absurd known (lookup_eq_none_iff.mp found)
  | some answer => rfl

theorem locate_of_unknown
    {cache : PackageCache} {name : String} (fresh : name ∉ cache.names) :
    cache.locate search name =
      (cache.answer search name,
        ⟨(name, search name) :: cache.answers, cache.searches + 1⟩) := by
  unfold locate locateIn answer
  rw [lookup_eq_none_iff.mpr fresh]
  rfl

@[simp]
theorem locate_fst (cache : PackageCache) (name : String) :
    (cache.locate search name).1 = cache.answer search name := by
  by_cases known : name ∈ cache.names
  · rw [locate_of_known known]
  · rw [locate_of_unknown known]

/-- Asking for one name changes the answer for none. -/
@[simp]
theorem answer_locate (cache : PackageCache) (name : String) :
    (cache.locate search name).2.answer search = cache.answer search := by
  by_cases known : name ∈ cache.names
  · rw [locate_of_known known]
  · rw [locate_of_unknown known]
    funext other
    unfold answer
    by_cases same : other = name
    · subst same
      rw [lookup_eq_none_iff.mpr known, List.lookup_cons_self]
      rfl
    · have different : (other == name) = false := beq_eq_false_iff_ne.mpr same
      rw [List.lookup_cons, different]

@[simp]
theorem answer_locateAll :
    ∀ (asked : List String) (cache : PackageCache),
      (cache.locateAll search asked).answer search = cache.answer search
  | [], _ => rfl
  | name :: rest, cache => by
      have later := answer_locateAll rest (cache.locate search name).2
      exact later.trans (answer_locate cache name)

@[simp]
theorem locateAll_append (asked later : List String) (cache : PackageCache) :
    cache.locateAll search (asked ++ later) =
      (cache.locateAll search asked).locateAll search later :=
  List.foldl_append

theorem answers_locateAll :
    ∀ (asked : List String) (cache : PackageCache),
      (cache.locateAll search asked).answers =
        (unknown cache.names asked).reverse.map
            (fun name => (name, search name)) ++ cache.answers
  | [], _ => rfl
  | name :: rest, cache => by
      have later := answers_locateAll rest (cache.locate search name).2
      have whole : cache.locateAll search (name :: rest) =
          (cache.locate search name).2.locateAll search rest := rfl
      rw [whole, later, unknown]
      by_cases known : name ∈ cache.names
      · rw [locate_of_known known, if_pos known]
      · rw [locate_of_unknown known, if_neg known]
        simp [names]

theorem searches_locateAll :
    ∀ (asked : List String) (cache : PackageCache),
      (cache.locateAll search asked).searches =
        cache.searches + (unknown cache.names asked).length
  | [], _ => rfl
  | name :: rest, cache => by
      have later := searches_locateAll rest (cache.locate search name).2
      have whole : cache.locateAll search (name :: rest) =
          (cache.locate search name).2.locateAll search rest := rfl
      rw [whole, later, unknown]
      by_cases known : name ∈ cache.names
      · rw [locate_of_known known, if_pos known]
      · rw [locate_of_unknown known, if_neg known, List.length_cons]
        simp only [names, List.map_cons]
        omega

/-! ## Unknown names -/

@[simp]
theorem mem_unknown_iff {name : String} :
    ∀ {known asked : List String},
      name ∈ unknown known asked ↔ name ∈ asked ∧ name ∉ known
  | _, [] => by simp [unknown]
  | known, first :: rest => by
      rw [unknown]
      by_cases old : first ∈ known
      · rw [if_pos old, mem_unknown_iff, List.mem_cons]
        constructor
        · intro given
          obtain ⟨later, fresh⟩ := given
          exact ⟨Or.inr later, fresh⟩
        · intro given
          rcases given with ⟨rfl | later, fresh⟩
          · exact absurd old fresh
          · exact ⟨later, fresh⟩
      · rw [if_neg old, List.mem_cons, List.mem_cons, mem_unknown_iff,
          List.mem_cons, not_or]
        constructor
        · intro either
          rcases either with rfl | ⟨later, _, fresh⟩
          · exact ⟨Or.inl rfl, old⟩
          · exact ⟨Or.inr later, fresh⟩
        · intro given
          rcases given with ⟨same | later, fresh⟩
          · exact Or.inl same
          · by_cases same : name = first
            · exact Or.inl same
            · exact Or.inr ⟨later, same, fresh⟩

theorem nodup_unknown :
    ∀ {known asked : List String}, (unknown known asked).Nodup
  | _, [] => List.nodup_nil
  | known, first :: rest => by
      rw [unknown]
      by_cases old : first ∈ known
      · rw [if_pos old]
        exact nodup_unknown
      · rw [if_neg old]
        apply List.nodup_cons.mpr
        refine ⟨?_, nodup_unknown⟩
        intro again
        exact (mem_unknown_iff.mp again).2 (List.mem_cons_self ..)

private theorem unknown_perm
    {known asked reordered : List String} (perm : asked.Perm reordered) :
    (unknown known asked).Perm (unknown known reordered) := by
  apply (List.perm_ext_iff_of_nodup nodup_unknown nodup_unknown).mpr
  intro name
  simp [perm.mem_iff]

/-- The order in which names are asked for does not change what the cache holds
afterwards. -/
theorem locateAll_perm
    {asked reordered : List String}
    (perm : asked.Perm reordered)
    (cache : PackageCache) :
    (cache.locateAll search asked).answers.Perm
      (cache.locateAll search reordered).answers ∧
      (cache.locateAll search asked).searches =
        (cache.locateAll search reordered).searches := by
  have unknowns :
      (unknown cache.names asked).Perm (unknown cache.names reordered) :=
    unknown_perm perm
  rw [answers_locateAll, answers_locateAll, searches_locateAll,
    searches_locateAll, unknowns.length_eq]
  refine ⟨List.Perm.append_right _ (List.Perm.map _ ?_), rfl⟩
  exact (List.reverse_perm _).trans (unknowns.trans (List.reverse_perm _).symm)

end ConfigTree.PackageCache
