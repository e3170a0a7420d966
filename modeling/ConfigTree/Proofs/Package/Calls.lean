import ConfigTree.Proofs.Package.Answers

/-!
# Calls of the search

How often a cache calls the search behind it. A search may have effects of its
own, such as writing down that it was called, and a cache is asked in the same
way (`locateIn`); asking for names in a row then calls it once for each name
that the cache does not hold yet, in the order in which these are first asked
for, and leaves the cache as without such effects (`run_askInTurn`).
-/

namespace ConfigTree.PackageCache

/-- The search that writes down the names it is called with. -/
def noting
    (search : String → Option String) (name : String) :
    StateM (List String) (Option String) := do
  modify (· ++ [name])
  return search name

/-- Asks for names in a row, and writes down the calls of the search. -/
def askInTurn
    (search : String → Option String)
    (asked : List String)
    (cache : PackageCache) :
    StateM (List String) PackageCache :=
  asked.foldlM
    (fun cache name => return (← cache.locateIn (noting search) name).2) cache

variable {search other : String → Option String} {cache : PackageCache}
  {name : String}

private theorem run_locateIn_of_known
    (known : name ∈ cache.names) (calls : List String) :
    (cache.locateIn (noting search) name).run calls =
      (cache.locate search name, calls) := by
  unfold locate locateIn
  cases found : cache.answers.lookup name with
  | none => exact absurd known (lookup_eq_none_iff.mp found)
  | some answer => rfl

private theorem run_locateIn_of_unknown
    (fresh : name ∉ cache.names) (calls : List String) :
    (cache.locateIn (noting search) name).run calls =
      (cache.locate search name, calls ++ [name]) := by
  unfold locate locateIn
  rw [lookup_eq_none_iff.mpr fresh]
  rfl

private theorem run_askInTurn_cons (rest : List String) (calls : List String) :
    (cache.askInTurn search (name :: rest)).run calls =
      (((cache.locateIn (noting search) name).run calls).1.2.askInTurn search
        rest).run ((cache.locateIn (noting search) name).run calls).2 := by
  unfold askInTurn
  rw [List.foldlM_cons, StateT.run_bind, StateT.run_bind]
  rfl

/-- The search is called once for each name that is new when it is asked for. -/
theorem run_askInTurn (search : String → Option String) :
    ∀ (asked : List String) (cache : PackageCache) (calls : List String),
      (cache.askInTurn search asked).run calls =
        (cache.locateAll search asked, calls ++ unknown cache.names asked)
  | [], cache, calls => by
      rw [unknown, List.append_nil]
      rfl
  | name :: rest, cache, calls => by
      have whole :
          cache.locateAll search (name :: rest) =
            (cache.locate search name).2.locateAll search rest :=
        rfl
      by_cases known : name ∈ cache.names
      · rw [run_askInTurn_cons, run_locateIn_of_known known, run_askInTurn,
          whole, unknown, if_pos known, locate_of_known known]
      · rw [run_askInTurn_cons, run_locateIn_of_unknown known, run_askInTurn,
          whole, unknown, if_neg known, locate_of_unknown known,
          List.append_assoc]
        rfl

/-! ## Answers to new names -/

theorem lookup_of_known
    (search : String → Option String) (known : name ∈ cache.names) :
    cache.answers.lookup name = some (cache.answer search name) := by
  unfold answer
  cases found : cache.answers.lookup name with
  | none => exact absurd known (lookup_eq_none_iff.mp found)
  | some answer => rfl

private theorem answer_of_unknown (fresh : name ∉ cache.names) :
    cache.answer search name = search name := by
  unfold answer
  rw [lookup_eq_none_iff.mpr fresh]
  rfl

/-- Searches that agree on the new names give the same answers to all names that
are asked for. -/
theorem answer_congr
    {asked : List String}
    (agree : ∀ name ∈ unknown cache.names asked, other name = search name) :
    ∀ name ∈ asked, cache.answer other name = cache.answer search name := by
  intro name member
  by_cases known : name ∈ cache.names
  · have same :
        some (cache.answer other name) = some (cache.answer search name) :=
      (lookup_of_known other known).symm.trans (lookup_of_known search known)
    exact Option.some.inj same
  · rw [answer_of_unknown known, answer_of_unknown known]
    exact agree name (mem_unknown_iff.mpr ⟨member, known⟩)

/-- Searches that agree on the new names leave the same cache. -/
theorem locateAll_congr
    {asked : List String}
    (agree : ∀ name ∈ unknown cache.names asked, other name = search name) :
    cache.locateAll other asked = cache.locateAll search asked := by
  have answers :
      (cache.locateAll other asked).answers =
        (cache.locateAll search asked).answers := by
    rw [answers_locateAll, answers_locateAll]
    congr 1
    apply List.map_congr_left
    intro name member
    rw [agree name (List.mem_reverse.mp member)]
  have searches :
      (cache.locateAll other asked).searches =
        (cache.locateAll search asked).searches := by
    rw [searches_locateAll, searches_locateAll]
  exact (PackageCache.mk.injEq ..).mpr ⟨answers, searches⟩

/-! ## The cache afterwards -/

theorem names_locateAll (asked : List String) (cache : PackageCache) :
    (cache.locateAll search asked).names =
      (unknown cache.names asked).reverse ++ cache.names := by
  unfold names
  rw [answers_locateAll, List.map_append, List.map_map]
  congr 1
  exact List.map_id _

theorem lookup_locateAll_of_known
    (known : name ∈ cache.names) (asked : List String) :
    (cache.locateAll search asked).answers.lookup name =
      cache.answers.lookup name := by
  have kept : name ∈ (cache.locateAll search asked).names := by
    rw [names_locateAll]
    exact List.mem_append_right _ known
  rw [lookup_of_known search kept, answer_locateAll,
    lookup_of_known search known]

theorem lookup_locateAll_of_unknown
    {asked : List String} (fresh : name ∈ unknown cache.names asked) :
    (cache.locateAll search asked).answers.lookup name =
      some (search name) := by
  have added : name ∈ (cache.locateAll search asked).names := by
    rw [names_locateAll]
    exact List.mem_append_left _ (List.mem_reverse.mpr fresh)
  rw [lookup_of_known search added, answer_locateAll,
    answer_of_unknown (mem_unknown_iff.mp fresh).2]

theorem size_locateAll (asked : List String) (cache : PackageCache) :
    (cache.locateAll search asked).size =
      cache.size + (unknown cache.names asked).length := by
  unfold size
  rw [answers_locateAll, List.length_append, List.length_map,
    List.length_reverse]
  omega

end ConfigTree.PackageCache
