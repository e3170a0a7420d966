import ConfigTree.FileSystem.Lookup

/-!
# Finding installed packages

A package lies in the modules directory under its own name, or else anywhere
below: the directories below are gone through from the top, those of one
directory in the order of their names, and the first one whose path ends in the
package's name is it. Links are followed, except where they lead back to a
directory that the search is inside of.
-/

namespace ConfigTree

/-- The parts of a path's text that count when two are compared: a slash or dot
at its start and the names. -/
def partsOf (text : String) : List String :=
  let names := FileSystem.namesOf text
  match FileSystem.steps text with
  | "" :: _ :: _ => "/" :: names
  | "." :: _ => "." :: names
  | _ => names

namespace Entry

mutual

/-- The places of an entry and of everything below it. -/
def placesFrom (place : Place) : Entry → List Place
  | .directory children => place :: placesFromChildren place children
  | _ => [place]

def placesFromChildren (place : Place) : List (String × Entry) → List Place
  | [] => []
  | (name, entry) :: rest =>
      entry.placesFrom (name :: place) ++ placesFromChildren place rest

end

theorem mem_placesFrom
    (place : Place) (entry : Entry) :
    place ∈ entry.placesFrom place := by
  cases entry <;> simp [placesFrom]

private theorem placesFrom_subset_of_lookup
    {place : Place} {name : String} {entry : Entry} :
    {children : List (String × Entry)} → children.lookup name = some entry →
      ∀ found ∈ entry.placesFrom (name :: place),
        found ∈ placesFromChildren place children
  | [], missing, _, _ => by simp at missing
  | (other, first) :: rest, present, found, member => by
    rw [List.lookup_cons] at present
    unfold placesFromChildren
    split at present
    · rename_i same
      obtain rfl := Option.some.inj present
      obtain rfl : name = other := by simpa using same
      exact List.mem_append_left _ member
    · exact List.mem_append_right _
        (placesFrom_subset_of_lookup present found member)

end Entry

namespace FileSystem

/-- All places at which there is an entry. -/
def places (files : FileSystem) : List Place :=
  (Entry.directory files.root).placesFrom []

theorem mem_places_of_mem_placesFrom {files : FileSystem} :
    {place : Place} → {entry : Entry} → files.at? place = some entry →
      ∀ found ∈ entry.placesFrom place, found ∈ files.places
  | [], entry, present, found, member => by
    obtain rfl : Entry.directory files.root = entry := by
      simpa [at?] using present
    exact member
  | name :: above, entry, present, found, member => by
    simp only [at?, Option.bind_eq_some_iff] at present
    obtain ⟨outer, inside, child⟩ := present
    cases outer with
    | directory children =>
      apply mem_places_of_mem_placesFrom inside found
      unfold Entry.placesFrom
      exact List.mem_cons_of_mem _
        (Entry.placesFrom_subset_of_lookup child found member)
    | file _ => simp [Entry.child?] at child
    | link _ => simp [Entry.child?] at child
    | device => simp [Entry.child?] at child

theorem mem_places
    {files : FileSystem}
    {place : Place}
    {entry : Entry}
    (present : files.at? place = some entry) :
    place ∈ files.places :=
  mem_places_of_mem_placesFrom present place (Entry.mem_placesFrom place entry)

/-- How many places there are besides the given ones. -/
def placesBesides (files : FileSystem) (inside : List Place) : Nat :=
  files.places.countP fun place => place ∉ inside

private theorem placesBesides_cons_le
    (files : FileSystem) (place : Place) (inside : List Place) :
    files.placesBesides (place :: inside) ≤ files.placesBesides inside := by
  apply List.countP_mono_left
  intro other _ outside
  simp only [decide_eq_true_eq, List.mem_cons, not_or] at *
  exact outside.2

private theorem placesBesides_cons_lt
    {files : FileSystem} {place : Place} {inside : List Place} {entry : Entry}
    (present : files.at? place = some entry) (outside : place ∉ inside) :
    files.placesBesides (place :: inside) < files.placesBesides inside := by
  have split : ∀ list : List Place, place ∈ list →
      list.countP (fun other => other ∉ place :: inside) <
          list.countP (fun other => other ∉ inside) := by
    intro list member
    have fewer : list.filter (fun other => other ∉ place :: inside) =
        (list.filter fun other => other ∉ inside).filter (· ≠ place) := by
      rw [List.filter_filter]
      apply List.filter_congr
      intro other _
      simp [not_or]
    rw [List.countP_eq_length_filter, List.countP_eq_length_filter, fewer]
    apply List.length_filter_lt_length_iff_exists.mpr
    exact ⟨place, List.mem_filter.mpr ⟨member, by simpa using outside⟩, by simp⟩
  exact split files.places (mem_places present)

/-! ## The search -/

/-- Children in the order of their names. -/
def inOrder (children : List (String × Entry)) : List (String × Entry) :=
  children.mergeSort fun a b => a.1 ≤ b.1

private theorem sizeOf_lt_of_mem_inOrder
    {child : String × Entry} {children : List (String × Entry)}
    (member : child ∈ inOrder children) : sizeOf child.2 < sizeOf children := by
  have among : child ∈ children := List.mem_mergeSort.mp member
  have less := List.sizeOf_lt_of_mem among
  obtain ⟨name, entry⟩ := child
  simp only [Prod.mk.sizeOf_spec] at less
  show sizeOf entry < sizeOf children
  omega

/-- The paths of all directories below one, given with its path's text, its
place and its children. The directories that the search is inside of are entered
by no link. All are looked up from the start of their paths, so one whose path
has grown too long is named and not gone through, and no link is followed behind
too many others. -/
def directoriesBelow
    (files : FileSystem) (inside : List Place) (text : String) (place : Place)
    (children : List (String × Entry)) : List String :=
  (inOrder children).attach.flatMap fun ⟨(name, entry), member⟩ =>
    let path := joinText text name
    match entry with
    | .directory inner =>
      have := sizeOf_lt_of_mem_inOrder member
      path ::
        if files.isDirectory path then
          files.directoriesBelow ((name :: place) :: inside) path
            (name :: place) inner
        else []
    | .link _ =>
      match files.locate path with
      | .error _ => []
      | .ok target =>
        match present : files.at? target with
        | some (.directory inner) =>
          if entered : target ∈ inside then []
          else
            have := placesBesides_cons_lt present entered
            path :: files.directoriesBelow (target :: inside) path target inner
        | _ => []
    | _ => []
termination_by (files.placesBesides inside, sizeOf children)
decreasing_by
  · simp only [Entry.directory.sizeOf_spec] at this
    exact Prod.Lex.right' _ (files.placesBesides_cons_le (name :: place) inside)
      (by omega)
  · exact Prod.Lex.left _ _ this

/-- What the search lists from one child of a directory on: its path and those
of all directories below it, if it is a directory or a link that is entered. -/
def directoriesFrom
    (files : FileSystem)
    (inside : List Place)
    (text : String)
    (place : Place)
    (name : String) :
    Entry → List String
  | .directory inner =>
    joinText text name ::
      if files.isDirectory (joinText text name) then
        files.directoriesBelow ((name :: place) :: inside) (joinText text name)
          (name :: place) inner
      else []
  | .link _ =>
    match files.locate (joinText text name) with
    | .error _ => []
    | .ok target =>
      match files.at? target with
      | some (.directory inner) =>
        if target ∈ inside then []
        else
          joinText text name ::
            files.directoriesBelow (target :: inside) (joinText text name)
              target inner
      | _ => []
  | _ => []

/-- The search below a directory is that from each of its children, in order. -/
theorem directoriesBelow_eq
    {files : FileSystem} (inside : List Place) (text : String) (place : Place)
    (children : List (String × Entry)) :
    files.directoriesBelow inside text place children =
      (inOrder children).flatMap fun child =>
        files.directoriesFrom inside text place child.1 child.2 := by
  have whole : (inOrder children).attach.unattach = inOrder children :=
    List.unattach_attach
  rw [directoriesBelow]
  conv => rhs; rw [← whole]
  apply List.flatMap_subtype
  rintro ⟨name, entry⟩ member
  cases entry with
  | directory inner => rfl
  | link target =>
      dsimp only
      unfold directoriesFrom
      cases files.locate (joinText text name) with
      | error obstacle => rfl
      | ok next =>
          dsimp only
          split
          next inner present => rw [present]; rfl
          next other =>
            split
            next inner present => exact absurd present (other inner)
            next => rfl
  | file content => rfl
  | device => rfl

/-- The paths of all directories below a path, in the order of the search. -/
def directoriesUnder (files : FileSystem) (text : String) : List String :=
  match files.locate text with
  | .error _ => []
  | .ok place =>
    match files.at? place with
    | some (.directory children) =>
        files.directoriesBelow [place] text place children
    | _ => []

/-- The path of the package of a name in a modules directory. -/
def searchModules
    (files : FileSystem) (modules name : String) :
    Option String :=
  let direct := joinText modules name
  if files.isDirectory direct then some direct
  else
    (files.directoriesUnder modules).find? fun text =>
      (partsOf name).isSuffixOf (partsOf text)

end FileSystem

end ConfigTree
