import ConfigTree.Fault
import ConfigTree.Package.Cache

/-!
# The journal of a resolution

What a resolution leaves behind besides its result: the packages it has asked
for and what it has to report. A failing resolution leaves what it had written
up to then.
-/

namespace ConfigTree

/-- What there is to report about a package reference. -/
inductive Event where
  | connected (name : String) (path : Path)
  | notFound (name : String)
deriving DecidableEq

def Event.text : Event → String
  | .connected name path => "connected package [" ++ name ++ "]: " ++ path.text
  | .notFound name => "package not found [" ++ name ++ "]"

structure Journal where
  cache : PackageCache
  /-- The events in the order they were reported. -/
  events : List Event

namespace Journal

def start (cache : PackageCache) : Journal :=
  ⟨cache, []⟩

/-- The names of the packages that were not found, in order, as often as they
were asked for. -/
def missingPackages (journal : Journal) : List String :=
  journal.events.filterMap fun
    | .notFound name => some name
    | .connected .. => none

end Journal

/-- A computation that writes to the journal and may fail. -/
abbrev Resolution (α : Type) := ExceptT Failure (StateM Journal) α

namespace Resolution

def fail {α : Type} (cause : Fault) : Resolution α :=
  throw (Failure.ofFault cause)

/-- The same with failures put under a key path. -/
def under
    {α : Type} (keyPath : KeyPath) (resolution : Resolution α) :
    Resolution α :=
  tryCatch resolution fun failure => throw (failure.under keyPath)

def report (event : Event) : Resolution Unit :=
  modify fun journal => { journal with events := journal.events ++ [event] }

/-- Asks the cache for a package. -/
def locate
    (search : String → Option String) (name : String) :
    Resolution (Option String) := do
  let journal ← get
  let (answer, cache) := journal.cache.locate search name
  set { journal with cache := cache }
  return answer

end Resolution

end ConfigTree
