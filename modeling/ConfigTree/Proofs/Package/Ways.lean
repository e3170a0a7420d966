import ConfigTree.Proofs.FileSystem.Stages
import ConfigTree.Proofs.Keyed
import ConfigTree.Proofs.Package.Below
import ConfigTree.Proofs.Text.Bytes

/-!
# Directories below

The directories that a search goes through, said without the order in which it
does so: a way leads below a directory if each of its names is a directory or a
link to one, no link among them leading back to a directory that the way has
come through. Main statement: the search goes through exactly these, those above
before those in them and beside one another in the order of the bytes of their
names (`listsWays_directoriesUnder`).
-/

namespace ConfigTree

def Entry.namesDiffer : Entry → Bool
  | .directory children => (children.map Prod.fst).Nodup
  | _ => true

namespace FileSystem

variable {files : FileSystem}

/-- No directory has two entries of one name. -/
def HasDistinctNames (files : FileSystem) : Prop :=
  ∀ place ∈ files.places, (files.at? place).all Entry.namesDiffer = true

instance (files : FileSystem) : Decidable files.HasDistinctNames :=
  inferInstanceAs (Decidable (∀ place ∈ files.places, _))

/-- Behind the names of a way a further name is a directory, or a link to one
that the way is not inside of. -/
def Opens
    (files : FileSystem)
    (modules : String)
    (before : List String)
    (name : String) :
    Prop :=
  ∃ place, files.locate (joinNames modules before) = .ok place ∧
    ((∃ inner, files.at? (name :: place) = some (.directory inner)) ∨
      ∃ target next inner, files.at? (name :: place) = some (.link target) ∧
        files.locate (joinNames modules (before ++ [name])) = .ok next ∧
        files.at? next = some (.directory inner) ∧
        ∀ earlier,
          earlier <+: before →
            files.locate (joinNames modules earlier) ≠ .ok next)

/-- A way leads from a directory to one strictly below it. -/
def IsWayBelow
    (files : FileSystem) (modules : String) (way : List String) :
    Prop :=
  way ≠ [] ∧
    ∀ before name after,
      way = before ++ name :: after → files.Opens modules before name

/-- The order of a depth-first search that names a directory before those in it
and goes through the names of one directory bytewise. -/
def Earlier (first second : List String) : Prop :=
  List.Lex (fun name other => Text.bytes name < Text.bytes other) first second

/-! ## Ways -/

theorem Opens.exists_entry
    {modules name : String}
    {before : List String}
    (opens : files.Opens modules before name) :
    ∃ place entry,
      files.locate (joinNames modules before) = .ok place ∧
      files.at? (name :: place) = some entry := by
  obtain ⟨place, located, ⟨inner, directory⟩ | ⟨target, _, _, link, _⟩⟩ := opens
  · exact ⟨place, _, located, directory⟩
  · exact ⟨place, _, located, link⟩

private theorem earlier_iff
    {first second : List String} :
    Earlier first second ↔ first < second := by
  unfold Earlier
  simp only [Text.bytes_lt_iff]
  exact List.lex_lt

theorem Earlier.asymm
    {first second : List String} (earlier : Earlier first second) :
    ¬ Earlier second first := by
  rw [earlier_iff] at *
  exact List.lt_asymm earlier

/-- A way leads on behind names that are already gone through. -/
def LeadsOn
    (files : FileSystem) (modules : String) (gone way : List String) :
    Prop :=
  way ≠ [] ∧
    ∀ before name after,
      way = before ++ name :: after → files.Opens modules (gone ++ before) name

theorem leadsOn_nil_iff {modules : String} {way : List String} :
    files.LeadsOn modules [] way ↔ files.IsWayBelow modules way := by
  unfold LeadsOn IsWayBelow
  simp only [List.nil_append]

private theorem leadsOn_cons_iff
    {modules name : String} {gone rest : List String} :
    files.LeadsOn modules gone (name :: rest) ↔
      files.Opens modules gone name ∧
        (rest = [] ∨ files.LeadsOn modules (gone ++ [name]) rest) := by
  constructor
  · rintro ⟨_, opens⟩
    constructor
    · simpa using opens [] name rest rfl
    · by_cases ended : rest = []
      · exact Or.inl ended
      · refine Or.inr ⟨ended, fun before other after split => ?_⟩
        simpa using opens (name :: before) other after (by rw [split]; rfl)
  · rintro ⟨here, later⟩
    refine ⟨List.cons_ne_nil _ _, ?_⟩
    rintro (_ | ⟨first, before⟩) other after split
    · obtain ⟨rfl, rfl⟩ := List.cons.inj split
      rwa [List.append_nil]
    · obtain ⟨rfl, behind⟩ := List.cons.inj split
      rcases later with rfl | ⟨_, opens⟩
      · simp at behind
      · simpa using opens before other after behind

/-! ## Lists of ways -/

/-- The paths are those of all ways with a property, in the order of a
depth-first search. -/
def ListsWays
    (text : String) (property : List String → Prop) (paths : List String) :
    Prop :=
  ∃ ways : List (List String),
    paths = ways.map (joinNames text) ∧ ways.Pairwise Earlier ∧
    ∀ way, way ∈ ways ↔ property way

section

variable {text : String} {property other : List String → Prop}
  {paths : List String}

private theorem ListsWays.congr
    (lists : ListsWays text property paths)
    (same : ∀ way, property way ↔ other way) :
    ListsWays text other paths := by
  obtain ⟨ways, map, ordered, members⟩ := lists
  exact ⟨ways, map, ordered, fun way => (members way).trans (same way)⟩

private theorem listsWays_nil
    (none : ∀ way, ¬ property way) :
    ListsWays text property [] :=
  ⟨[], rfl, .nil, fun way => iff_of_false List.not_mem_nil (none way)⟩

/-- A directory comes before all that lies below it. -/
theorem ListsWays.cons
    (lists : ListsWays text property paths) (below : ¬ property []) :
    ListsWays text (fun way => way = [] ∨ property way) (text :: paths) := by
  obtain ⟨ways, rfl, ordered, members⟩ := lists
  refine ⟨[] :: ways, rfl,
    List.pairwise_cons.mpr ⟨fun way member => ?_, ordered⟩, fun way => ?_⟩
  · cases way with
    | nil => exact absurd ((members []).mp member) below
    | cons name rest => exact .nil
  · rw [List.mem_cons, members]

/-- What lies below one child comes before all that lies below the next. -/
theorem ListsWays.flatMap
    {children : List (String × Entry)}
    {pathsFrom : String × Entry → List String}
    (ascending :
      children.Pairwise fun first second =>
        Text.bytes first.1 < Text.bytes second.1)
    (each : ∀ child ∈ children,
      ListsWays (joinText text child.1) (fun rest => property (child.1 :: rest))
        (pathsFrom child))
    (covered :
      ∀ way, property way → ∃ child ∈ children, ∃ rest, way = child.1 :: rest) :
    ListsWays text property (children.flatMap pathsFrom) := by
  choose! ways same ordered members using each
  refine ⟨children.flatMap fun child => (ways child).map (child.1 :: ·), ?_, ?_,
    fun way => ?_⟩
  · have parts :
        ∀ child ∈ children,
          pathsFrom child =
            ((ways child).map (child.1 :: ·)).map (joinNames text) := by
      intro child member
      rw [same child member, List.map_map]
      rfl
    rw [List.map_flatMap, List.flatMap, List.flatMap, List.map_congr_left parts]
  · refine List.pairwise_flatMap.mpr
      ⟨fun child member => ?_, ascending.imp fun {first second} less => ?_⟩
    · exact List.pairwise_map.mpr
        ((ordered child member).imp fun earlier => .cons earlier)
    · intro way member later memberLater
      obtain ⟨rest, _, rfl⟩ := List.mem_map.mp member
      obtain ⟨behind, _, rfl⟩ := List.mem_map.mp memberLater
      exact .rel less
  · rw [List.mem_flatMap]
    constructor
    · rintro ⟨child, member, listed⟩
      obtain ⟨rest, among, rfl⟩ := List.mem_map.mp listed
      exact (members child member rest).mp among
    · intro given
      obtain ⟨child, member, rest, rfl⟩ := covered way given
      exact ⟨child, member,
        List.mem_map.mpr ⟨rest, (members child member rest).mpr given, rfl⟩⟩

end

/-! ## Entries -/

private theorem HasDistinctNames.nodup
    (distinct : files.HasDistinctNames)
    {place : Place}
    {children : List (String × Entry)}
    (inside : files.at? place = some (.directory children)) :
    (children.map Prod.fst).Nodup := by
  have differ := distinct place (mem_places inside)
  rw [inside] at differ
  exact of_decide_eq_true differ

private theorem at?_cons_iff
    (distinct : files.HasDistinctNames)
    {place : Place}
    {children : List (String × Entry)}
    (inside : files.at? place = some (.directory children))
    {name : String}
    {entry : Entry} :
    files.at? (name :: place) = some entry ↔ (name, entry) ∈ children := by
  have lookUp : files.at? (name :: place) = children.lookup name := by
    rw [at?, inside]
    rfl
  rw [lookUp]
  exact ⟨Keyed.mem_of_lookup, Keyed.lookup_of_mem (distinct.nodup inside)⟩

private theorem pairwise_inOrder
    {children : List (String × Entry)}
    (distinct : (children.map Prod.fst).Nodup) :
    (inOrder children).Pairwise fun first second =>
      Text.bytes first.1 < Text.bytes second.1 := by
  have sorted :
      (inOrder children).Pairwise fun first second =>
        decide (first.1 ≤ second.1) = true := by
    apply List.pairwise_mergeSort
    · intro first second third before after
      simp only [decide_eq_true_eq] at *
      exact String.le_trans before after
    · intro first second
      simpa using String.le_total first.1 second.1
  have differ :
      (inOrder children).Pairwise fun first second => first.1 ≠ second.1 := by
    have same : (inOrder children).Perm children := List.mergeSort_perm _ _
    exact List.pairwise_map.mp ((same.map Prod.fst).nodup_iff.mpr distinct)
  refine (sorted.and differ).imp fun {first second} both => ?_
  obtain ⟨before, different⟩ := both
  rw [Text.bytes_lt_iff]
  by_contra notLess
  exact different
    (String.le_antisymm (of_decide_eq_true before) (String.not_lt.mp notLess))

/-! ## One directory -/

/-- The search has gone through names: it is at the place that they lead to, and
inside of those on the way there. -/
structure HasGone
    (files : FileSystem)
    (modules : String)
    (gone : List String)
    (inside : List Place)
    (text : String)
    (place : Place) (children : List (String × Entry)) : Prop where
  text_eq : text = joinNames modules gone
  located : files.locate text = .ok place
  present : files.at? place = some (.directory children)
  mem_inside_iff : ∀ other, other ∈ inside ↔
    ∃ earlier,
      earlier <+: gone ∧ files.locate (joinNames modules earlier) = .ok other

section

variable {modules text name : String} {gone : List String} {inside : List Place}
  {place : Place}
  {children : List (String × Entry)}

private theorem HasGone.enter
    (arrived : files.HasGone modules gone inside text place children)
    {next : Place}
    {inner : List (String × Entry)}
    (located : files.locate (joinText text name) = .ok next)
    (present : files.at? next = some (.directory inner)) :
    files.HasGone modules (gone ++ [name]) (next :: inside) (joinText text name)
      next inner := by
  have further : joinText text name = joinNames modules (gone ++ [name]) := by
    rw [joinNames_concat, ← arrived.text_eq]
  refine ⟨further, located, present, fun other => ?_⟩
  rw [List.mem_cons, arrived.mem_inside_iff other]
  constructor
  · rintro (rfl | ⟨earlier, before, reached⟩)
    · exact ⟨gone ++ [name], List.prefix_rfl, further ▸ located⟩
    · exact ⟨earlier, before.trans (List.prefix_append _ _), reached⟩
  · rintro ⟨earlier, before, reached⟩
    rcases List.prefix_concat_iff.mp before with rfl | shorter
    · rw [← further, located] at reached
      exact Or.inl (Except.ok.inj reached).symm
    · exact Or.inr ⟨earlier, shorter, reached⟩

/-- Which names open is told by their entries. -/
theorem HasGone.opens_iff
    (arrived : files.HasGone modules gone inside text place children) :
    files.Opens modules gone name ↔
      (∃ inner, files.at? (name :: place) = some (.directory inner)) ∨
        ∃ target next inner, files.at? (name :: place) = some (.link target) ∧
          files.locate (joinText text name) = .ok next ∧
            files.at? next = some (.directory inner) ∧ next ∉ inside := by
  have outside (next : Place) :
      next ∉ inside ↔
          ∀ earlier,
            earlier <+: gone →
              files.locate (joinNames modules earlier) ≠ .ok next := by
    rw [arrived.mem_inside_iff]
    push Not
    rfl
  unfold Opens
  simp only [joinNames_concat, ← arrived.text_eq, arrived.located,
    Except.ok.injEq, outside, exists_eq_left']

/-- Whatever leads on has come to a directory. -/
theorem exists_directory_of_leadsOn
    {way : List String} (leads : files.LeadsOn modules gone way) :
    ∃ place children, files.locate (joinNames modules gone) = .ok place ∧
      files.at? place = some (.directory children) := by
  obtain ⟨name, rest, rfl⟩ := List.exists_cons_of_ne_nil leads.1
  obtain ⟨place, entry, located, present⟩ :=
    (leadsOn_cons_iff.mp leads).1.exists_entry
  obtain ⟨children, inside⟩ := exists_children_of_at? present
  exact ⟨place, children, located, inside⟩

/-- The paths from a child on are those of the ways that start with its name. -/
theorem HasGone.listsWays_from
    (arrived : files.HasGone modules gone inside text place children)
    (proper : IsEntryName name)
    {entry : Entry}
    (present : files.at? (name :: place) = some entry)
    (deeper :
      ∀ next inner,
        (entry = .directory inner ∧ next = name :: place ∨ next ∉ inside) →
          files.HasGone modules (gone ++ [name]) (next :: inside)
            (joinText text name) next inner →
          ListsWays (joinText text name)
            (files.LeadsOn modules (gone ++ [name]))
            (files.directoriesBelow (next :: inside) (joinText text name) next
              inner)) :
    ListsWays (joinText text name)
      (fun rest => files.LeadsOn modules gone (name :: rest))
      (files.directoriesFrom inside text place name entry) := by
  have shut (closed : ¬ files.Opens modules gone name) :
      ListsWays (joinText text name)
          (fun rest => files.LeadsOn modules gone (name :: rest)) [] :=
    listsWays_nil fun rest leads => closed (leadsOn_cons_iff.mp leads).1
  have opened (opens : files.Opens modules gone name) {paths : List String}
      (lists :
        ListsWays (joinText text name) (files.LeadsOn modules (gone ++ [name]))
          paths) :
      ListsWays (joinText text name)
          (fun rest => files.LeadsOn modules gone (name :: rest))
          (joinText text name :: paths) := by
    refine (lists.cons fun leads => leads.1 rfl).congr fun rest => ?_
    rw [leadsOn_cons_iff]
    exact (and_iff_right opens).symm
  have opens : files.Opens modules gone name ↔ _ := arrived.opens_iff
  rw [present] at opens
  unfold directoriesFrom
  cases entry with
  | directory inner =>
      refine opened (opens.mpr (Or.inl ⟨inner, rfl⟩)) ?_
      split
      next entered =>
        obtain ⟨next, others, located, directory⟩ := isDirectory_iff.mp entered
        obtain rfl :=
          eq_of_locate_joinText proper arrived.located present located
        exact deeper _ _ (Or.inl ⟨rfl, rfl⟩) (arrived.enter located present)
      next closed =>
        refine listsWays_nil fun way leads => closed (isDirectory_iff.mpr ?_)
        have reached := exists_directory_of_leadsOn leads
        rwa [joinNames_concat, ← arrived.text_eq] at reached
  | link target =>
      cases located : files.locate (joinText text name) with
      | error obstacle =>
          apply shut
          rw [opens]
          simp [located]
      | ok next =>
          dsimp only
          split
          next inner directory =>
            split
            next entered =>
              apply shut
              rw [opens]
              simp [located, entered]
            next outside =>
              exact opened
                (opens.mpr
                  (Or.inr
                    ⟨target, next, inner, rfl, located, directory, outside⟩))
                (deeper _ _ (Or.inr outside) (arrived.enter located directory))
          next other =>
            apply shut
            rw [opens]
            simpa [located] using
              fun inner directory => absurd directory (other inner)
  | file content =>
      apply shut
      rw [opens]
      simp
  | device =>
      apply shut
      rw [opens]
      simp

end

/-! ## All directories -/

private theorem listsWays_directoriesBelow
    (named : files.HasEntryNames)
    (distinct : files.HasDistinctNames)
    {modules : String}
    {inside : List Place}
    {text : String}
    {place : Place}
    {children : List (String × Entry)}
    {gone : List String}
    (arrived : files.HasGone modules gone inside text place children) :
    ListsWays text (files.LeadsOn modules gone)
      (files.directoriesBelow inside text place children) := by
  induction inside, text, place,
      children using directoriesBelow.induct files generalizing gone with
  | case1 inside text place children directoryStep linkStep =>
      rw [directoriesBelow_eq]
      refine .flatMap (pairwise_inOrder (distinct.nodup arrived.present)) ?_
        fun way leads => ?_
      · rintro ⟨name, entry⟩ member
        have present : files.at? (name :: place) = some entry :=
          (at?_cons_iff distinct arrived.present).mpr
            (List.mem_mergeSort.mp member)
        have proper : IsEntryName name :=
          named _ (mem_places present) name List.mem_cons_self
        refine arrived.listsWays_from proper present
          fun next inner entered further => ?_
        rcases entered with ⟨rfl, rfl⟩ | outside
        · exact directoryStep name inner member further
        · exact linkStep name next inner further.present outside further
      · obtain ⟨name, rest, rfl⟩ := List.exists_cons_of_ne_nil leads.1
        obtain ⟨here, entry, located, present⟩ :=
          (leadsOn_cons_iff.mp leads).1.exists_entry
        obtain rfl :=
          Except.ok.inj (arrived.located.symm.trans (arrived.text_eq ▸ located))
        exact ⟨(name, entry),
          List.mem_mergeSort.mpr
            ((at?_cons_iff distinct arrived.present).mp present), rest, rfl⟩

/-- The search goes through the directories that ways lead to, one way after the
other. -/
theorem listsWays_directoriesUnder
    (named : files.HasEntryNames)
    (distinct : files.HasDistinctNames)
    (modules : String) :
    ListsWays modules (files.IsWayBelow modules)
      (files.directoriesUnder modules) := by
  have nowhere (none : ∀ place children, files.locate modules = .ok place →
      files.at? place ≠
          some (.directory children)) : ListsWays modules
            (files.IsWayBelow modules) [] := by
    refine listsWays_nil fun way below => ?_
    obtain ⟨place, children, located, present⟩ :=
      exists_directory_of_leadsOn (leadsOn_nil_iff.mpr below)
    exact none place children located present
  unfold directoriesUnder
  cases located : files.locate modules with
  | error obstacle => exact nowhere (by simp [located])
  | ok place =>
      dsimp only
      split
      next children present =>
        have arrived :
            files.HasGone modules [] [place] modules place children := by
          refine ⟨rfl, located, present, fun other => ?_⟩
          rw [List.mem_singleton]
          constructor
          · rintro rfl
            exact ⟨[], List.prefix_rfl, located⟩
          · rintro ⟨earlier, none, reached⟩
            obtain rfl := List.prefix_nil.mp none
            exact Except.ok.inj (reached.symm.trans located)
        exact (listsWays_directoriesBelow named distinct arrived).congr fun _ =>
          leadsOn_nil_iff
      next other =>
        apply nowhere
        intro reached children same
        obtain rfl := Except.ok.inj (located.symm.trans same)
        exact other children

end FileSystem

end ConfigTree
