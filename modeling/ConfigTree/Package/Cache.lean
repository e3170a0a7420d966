/-!
# Remembered packages

A cache keeps the answer of the first search for each name, found or not, and
counts the searches. Forgetting the answers does not take back the count.
-/

namespace ConfigTree

structure PackageCache where
  /-- The answers, latest first, each name once. -/
  answers : List (String × Option String)
  searches : Nat
deriving Inhabited

namespace PackageCache

def empty : PackageCache :=
  ⟨[], 0⟩

/-- The answer for a name, from a search if it is not known yet. The search may
have effects. -/
def locateIn
    {m : Type → Type}
    [Monad m]
    (search : String → m (Option String))
    (name : String)
    (cache : PackageCache) : m (Option String × PackageCache) :=
  match cache.answers.lookup name with
  | some answer => return (answer, cache)
  | none => do
    let answer ← search name
    return (answer, ⟨(name, answer) :: cache.answers, cache.searches + 1⟩)

/-- The answer for a name, from a search without effects. -/
def locate
    (search : String → Option String) (name : String) (cache : PackageCache) :
    Option String × PackageCache :=
  Id.run (cache.locateIn (fun name => pure (search name)) name)

/-- Forgets all answers. -/
def reset (cache : PackageCache) : PackageCache :=
  { cache with answers := [] }

/-- How many names are known. -/
def size (cache : PackageCache) : Nat :=
  cache.answers.length

def summary (cache : PackageCache) : String :=
  "PackageCache \x7b entries: " ++ toString cache.size ++ ", searches: " ++
    toString cache.searches ++ " \x7d"

end PackageCache

end ConfigTree
