import ConfigTree.Proofs.FileSystem.Current
import ConfigTree.Proofs.FileSystem.Orders
import ConfigTree.Proofs.Package.Ways
import ConfigTree.Proofs.Reference.Grammar
import Mathlib.Data.Set.Finite.Basic

/-!
# The directory that a search finds

A package lies under its own name in the modules directory, or else at the first
directory below whose path ends in the segments of the name. Main statement:
that directory is found whenever there is one, and nothing else ever is, in
whatever order directories list their entries and wherever links lead
(`search_finds_first_match`).
-/

namespace ConfigTree

/-! ## Parts of paths -/

private theorem Reference.IsSegment.isEntryName
    {segment : String} (proper : IsSegment segment) :
    IsEntryName segment := by
  obtain ⟨notDot, notDots⟩ := proper.visible 0
  refine ⟨proper.nonempty, ?_, ?_, proper.unseparated⟩
  · rintro rfl
    exact notDot rfl
  · rintro rfl
    exact notDots rfl

/-- A package's name is made of names that entries can have. -/
theorem Reference.IsPackageName.exists_segments
    {name : String} (admitted : IsPackageName name) :
    ∃ segments : List String,
      segments ≠ [] ∧ (∀ segment ∈ segments, IsEntryName segment) ∧
      name = "/".intercalate segments := by
  cases admitted with
  | plain proper =>
      exact ⟨[name], List.cons_ne_nil _ _, by simpa using proper.isEntryName,
        String.intercalate_singleton.symm⟩
  | @withScope scope last nonempty properScope proper =>
      refine ⟨["@" ++ scope, last], List.cons_ne_nil _ _, ?_, ?_⟩
      · simpa using ⟨properScope.isEntryName, proper.isEntryName⟩
      · rw [String.intercalate_cons_cons, String.intercalate_singleton]

namespace FileSystem

variable {files other : FileSystem}

private theorem isEntryName_of_mem_steps
    {name segment : String} (admitted : Reference.IsPackageName name)
    (member : segment ∈ steps name) : IsEntryName segment := by
  obtain ⟨segments, nonempty, proper, rfl⟩ := admitted.exists_segments
  rw [steps_intercalate nonempty proper] at member
  exact proper segment member

private theorem partsOf_eq_steps
    {text : String} (proper : ∀ step ∈ steps text, IsEntryName step) :
    partsOf text = steps text := by
  have names : namesOf text = steps text := by
    refine List.filter_eq_self.mpr fun step member => ?_
    obtain ⟨nonempty, notDot, _⟩ := proper step member
    simp [nonempty, notDot]
  unfold partsOf
  rw [names]
  dsimp only
  split
  next rest pieces =>
    exact absurd rfl (proper "" (by rw [pieces]; exact List.mem_cons_self)).1
  next rest pieces =>
    exact absurd rfl (proper "." (by rw [pieces]; exact List.mem_cons_self)).2.1
  next => rfl

/-- The part that stands for where a path starts, if there is one, is told by
its first step. -/
theorem partsOf_eq (text : String) :
    partsOf text =
      (if (steps text).head? = some "" ∧ (steps text).tail ≠ [] then ["/"]
        else
            if (steps text).head? = some "." then
              ["."]
            else
              []) ++ namesOf text := by
  unfold partsOf
  dsimp only
  split
  next second rest pieces => simp [pieces]
  next rest pieces => simp [pieces]
  next rooted dotted =>
    cases pieces : steps text with
    | nil => rfl
    | cons first rest =>
        have notRooted : ¬ (first = "" ∧ rest ≠ []) := by
          rintro ⟨rfl, more⟩
          obtain ⟨second, others, rfl⟩ := List.exists_cons_of_ne_nil more
          exact rooted second others pieces
        have notDotted : first ≠ "." := by
          rintro rfl
          exact dotted rest pieces
        simp [notRooted, notDotted]

private theorem partsOf_joinText
    (text : String) {name : String} (proper : IsEntryName name) :
    partsOf (joinText text name) = partsOf text ++ [name] := by
  have ⟨nonemptyName, notDot, _⟩ := proper
  have joinedSteps := steps_joinText text proper.head?_ne
  rw [steps_of_isEntryName proper] at joinedSteps
  have names : namesOf (joinText text name) = namesOf text ++ [name] := by
    unfold namesOf
    rcases joinedSteps with ⟨before, whole, joined⟩ | ⟨_, joined⟩
    · simp [whole, joined, nonemptyName, notDot]
    · simp [joined, nonemptyName, notDot]
  rw [partsOf_eq, partsOf_eq, names, List.append_assoc]
  congr 1
  rcases joinedSteps with ⟨before, whole, joined⟩ | ⟨nonempty, joined⟩
  · rw [whole, joined]
    cases before with
    | nil => simp [nonemptyName, notDot]
    | cons first rest => simp
  · rw [joined]
    cases pieces : steps text with
    | nil => exact absurd pieces (steps_ne_nil text)
    | cons first rest =>
        have more : first = "" → rest ≠ [] := by
          rintro rfl rfl
          have back := intercalate_steps text
          rw [pieces] at back
          exact nonempty back.symm
        by_cases empty : first = ""
        · simp [empty, more empty]
        · simp [empty]

private theorem partsOf_joinNames
    {way : List String}
    (proper : ∀ name ∈ way, IsEntryName name)
    (modules : String) :
    partsOf (joinNames modules way) = partsOf modules ++ way := by
  induction way generalizing modules with
  | nil => exact (List.append_nil _).symm
  | cons name rest inductionHypothesis =>
      obtain ⟨here, later⟩ := List.forall_mem_cons.mp proper
      have whole :
          joinNames modules (name :: rest) =
            joinNames (joinText modules name) rest :=
        rfl
      rw [whole, inductionHypothesis later, partsOf_joinText modules here,
        List.append_assoc]
      rfl

/-! ## Matches -/

/-- A way leads to a directory below whose path ends in the segments of a
name. -/
def IsMatch
    (files : FileSystem) (modules name : String) (way : List String) :
    Prop :=
  files.IsWayBelow modules way ∧ steps name <:+ partsOf modules ++ way

/-- A match that all others come after. -/
def IsFirstMatch
    (files : FileSystem) (modules name : String) (way : List String) :
    Prop :=
  files.IsMatch modules name way ∧
    ∀ further,
      files.IsMatch modules name further → further = way ∨ Earlier way further

private theorem head?_eq_some_iff_first
    {α : Type}
    {before : α → α → Prop}
    {list : List α}
    (ordered : list.Pairwise before)
    (asymm : ∀ first second, before first second → ¬ before second first)
    {found : α} :
    list.head? = some found ↔
      found ∈ list ∧
        ∀ further ∈ list, further = found ∨ before found further := by
  cases list with
  | nil => simp
  | cons first rest =>
      have least : ∀ further ∈ rest, before first further :=
        fun _ => List.rel_of_pairwise_cons ordered
      rw [List.head?_cons, Option.some.injEq]
      constructor
      · rintro rfl
        exact ⟨List.mem_cons_self,
          fun further member =>
            (List.mem_cons.mp member).imp_right (least further)⟩
      · rintro ⟨member, all⟩
        rcases all first List.mem_cons_self with same | later
        · exact same
        · rcases List.mem_cons.mp member with same | inRest
          · exact same.symm
          · exact absurd later (asymm _ _ (least found inRest))

private theorem IsWayBelow.isEntryName
    (named : files.HasEntryNames)
    {modules name : String}
    {way : List String}
    (below : files.IsWayBelow modules way)
    (member : name ∈ way) : IsEntryName name := by
  obtain ⟨before, after, split⟩ := List.append_of_mem member
  obtain ⟨place, entry, _, present⟩ :=
    (below.2 before name after split).exists_entry
  exact named _ (mem_places present) name List.mem_cons_self

section

variable (named : files.HasEntryNames) (distinct : files.HasDistinctNames)
  {name : String}
  (admitted : Reference.IsPackageName name) (modules : String)

include named distinct admitted

/-- If the name does not lead to a directory from the modules directory, the
search takes the first of all matches. -/
theorem exists_matches :
    ∃ found : List (List String),
      found.Pairwise Earlier ∧
      (∀ way, way ∈ found ↔ files.IsMatch modules name way) ∧
      files.searchModules modules name =
        if files.isDirectory (joinText modules name) then
          some (joinText modules name)
        else found.head?.map (joinNames modules) := by
  obtain ⟨ways, same, ordered, members⟩ :=
    files.listsWays_directoriesUnder named distinct modules
  let matching := fun text => (partsOf name).isSuffixOf (partsOf text)
  refine ⟨ways.filter (matching ∘ joinNames modules), ordered.filter _,
    fun way => ?_, ?_⟩
  · rw [List.mem_filter, members, IsMatch]
    refine and_congr_right fun below => ?_
    show (partsOf name).isSuffixOf (partsOf (joinNames modules way)) = true ↔ _
    rw [List.isSuffixOf_iff_suffix,
      partsOf_joinNames fun _ => below.isEntryName named,
      partsOf_eq_steps fun _ => isEntryName_of_mem_steps admitted]
  · rw [searchModules, same, List.find?_map, List.head?_filter]

private theorem searchModules_eq_some_iff
    (indirect : files.isDirectory (joinText modules name) = false)
    (root : String) :
    files.searchModules modules name = some root ↔
      ∃ way,
        files.IsFirstMatch modules name way ∧ root = joinNames modules way := by
  obtain ⟨found, ordered, members, search⟩ :=
    exists_matches named distinct admitted modules
  rw [search, indirect, if_neg Bool.false_ne_true, Option.map_eq_some_iff]
  simp only [head?_eq_some_iff_first ordered fun _ _ => Earlier.asymm, members,
    IsFirstMatch, eq_comm]

private theorem searchModules_eq_none_iff :
    files.searchModules modules name = none ↔
      files.isDirectory (joinText modules name) = false ∧
        ∀ way, ¬ files.IsMatch modules name way := by
  obtain ⟨found, _, members, search⟩ :=
    exists_matches named distinct admitted modules
  rw [search]
  cases files.isDirectory (joinText modules name) with
  | true => simp
  | false => simp [← members, List.eq_nil_iff_forall_not_mem]

end

/-! ## What else is known of a search -/

private theorem HasSameEntries.opens
    (same : files.HasSameEntries other)
    {modules name : String}
    {before : List String}
    (opens : files.Opens modules before name) :
    other.Opens modules before name := by
  obtain ⟨place, located,
      ⟨inner, directory⟩ |
        ⟨target, next, inner, link, reached, directory, outside⟩⟩ :=
    opens
  · obtain ⟨reordered, present⟩ := same.exists_children directory
    exact ⟨place, same.locate_eq _ ▸ located, Or.inl ⟨reordered, present⟩⟩
  · obtain ⟨reordered, present⟩ := same.exists_children directory
    refine ⟨place, same.locate_eq _ ▸ located,
      Or.inr ⟨target, next, reordered, ?_, ?_, present, ?_⟩⟩
    · exact same.at?_eq (fun _ => Entry.noConfusion) link
    · rw [same.locate_eq, reached]
    · intro earlier inFront
      rw [same.locate_eq]
      exact outside earlier inFront

private theorem HasSameEntries.isMatch
    (same : files.HasSameEntries other)
    {modules name : String}
    {way : List String}
    (matching : files.IsMatch modules name way) :
    other.IsMatch modules name way :=
  ⟨⟨matching.1.1,
      fun before segment after split =>
        same.opens (matching.1.2 before segment after split)⟩, matching.2⟩

private theorem HasSameEntries.isMatch_iff
    (same : files.HasSameEntries other)
    {modules name : String}
    {way : List String} :
    other.IsMatch modules name way ↔ files.IsMatch modules name way :=
  ⟨same.symm.isMatch, same.isMatch⟩

/-- There are finitely many ways, also where a link leads back to a directory
above it. -/
theorem finite_ways
    (named : files.HasEntryNames)
    (distinct : files.HasDistinctNames)
    (modules : String) :
    {way | files.IsWayBelow modules way}.Finite := by
  obtain ⟨ways, _, _, members⟩ :=
    files.listsWays_directoriesUnder named distinct modules
  exact ways.finite_toSet.subset fun way below => (members way).mpr below

/-- A way does not lead to a file. -/
theorem IsWayBelow.isFile_eq_false
    (named : files.HasEntryNames)
    {modules : String}
    {way : List String}
    (below : files.IsWayBelow modules way) :
    files.isFile (joinNames modules way) = false := by
  obtain ⟨before, name, rfl⟩ : ∃ before name, way = before ++ [name] :=
    (List.eq_nil_or_concat' way).resolve_left below.1
  rw [← Bool.not_eq_true, isFile_iff]
  rintro ⟨found, content, located, file⟩
  obtain ⟨place, reached,
      ⟨inner, directory⟩ | ⟨_, next, inner, _, led, directory, _⟩⟩ :=
    below.2 before name [] rfl
  · have proper : IsEntryName name := below.isEntryName named (by simp)
    rw [joinNames_concat] at located
    obtain rfl := eq_of_locate_joinText proper reached directory located
    cases directory.symm.trans file
  · obtain rfl := Except.ok.inj (led.symm.trans located)
    cases directory.symm.trans file

private theorem isFile_eq_false_of_isDirectory
    {text : String} (directory : files.isDirectory text = true) :
    files.isFile text = false := by
  obtain ⟨place, children, located, inside⟩ := isDirectory_iff.mp directory
  rw [← Bool.not_eq_true, isFile_iff]
  rintro ⟨found, content, reached, file⟩
  obtain rfl := Except.ok.inj (located.symm.trans reached)
  cases inside.symm.trans file

/-- Where nothing stands nothing is found, unless the modules directory is the
empty text: a name is then looked up by itself. -/
theorem searchModules_of_missing
    (named : files.HasEntryNames)
    (distinct : files.HasDistinctNames)
    {name : String}
    (admitted : Reference.IsPackageName name)
    {modules : String}
    (nonempty : modules ≠ "")
    (missing : files.hasEntry modules = false) :
    files.searchModules modules name = none := by
  have nothing (place : Place) (children : List (String × Entry))
      (located : files.locate modules = .ok place) :
      files.at? place ≠ some (.directory children) := by
    intro inside
    rw [hasEntry_iff.mpr ⟨place, _, located, inside⟩] at missing
    cases missing
  refine (searchModules_eq_none_iff named distinct admitted modules).mpr
    ⟨?_, fun way matching => ?_⟩
  · rw [← Bool.not_eq_true, isDirectory_iff]
    rintro ⟨target, _, located, _⟩
    have relative : name.toList.head? ≠ some '/' := by
      obtain ⟨segments, _, proper, rfl⟩ := admitted.exists_segments
      exact head?_intercalate_ne proper
    obtain ⟨place, left, above, walked⟩ :=
      exists_walk_of_joinText nonempty relative located
    obtain ⟨first, rest, pieces⟩ :=
      List.exists_cons_of_ne_nil (steps_ne_nil name)
    rw [pieces] at walked
    obtain ⟨children, inside⟩ := exists_children_of_walk walked
    exact nothing place children above inside
  · obtain ⟨place, children, located, inside⟩ :=
      exists_directory_of_leadsOn (leadsOn_nil_iff.mpr matching.1)
    exact nothing place children located inside

/-! ## The search -/

/-- The search for an admitted name takes the directory that the name leads to
from the modules directory, links followed. Where there is none it takes the
first directory strictly below, in depth-first order, whose path ends in the
name's segments, and it finds nothing exactly where there is no such directory
either. What it finds is no file and does not depend on the order in which
entries are listed, and the ways that it goes are finitely many. -/
theorem search_finds_first_match
    (named : files.HasEntryNames)
    (distinct : files.HasDistinctNames)
    {name : String}
    (admitted : Reference.IsPackageName name) (modules : String) :
    (files.isDirectory (joinText modules name) = true →
      files.searchModules modules name = some (joinText modules name)) ∧
    (files.isDirectory (joinText modules name) = false → ∀ root,
      files.searchModules modules name = some root ↔
        ∃ way,
          files.IsFirstMatch modules name way ∧ root = joinNames modules way) ∧
    (files.searchModules modules name = none ↔
      files.isDirectory (joinText modules name) = false ∧
        ∀ way, ¬ files.IsMatch modules name way) ∧
    (modules ≠ "" → files.hasEntry modules = false →
      files.searchModules modules name = none) ∧
    (∀ root,
      files.searchModules modules name = some root → files.isFile root = false)
      ∧
    (∀ other : FileSystem,
      other.HasEntryNames → other.HasDistinctNames →
        files.HasSameEntries other →
        other.searchModules modules name = files.searchModules modules name) ∧
    {way | files.IsWayBelow modules way}.Finite := by
  have direct {files : FileSystem}
      (directory : files.isDirectory (joinText modules name) = true) :
      files.searchModules modules name = some (joinText modules name) :=
    if_pos directory
  refine ⟨direct, searchModules_eq_some_iff named distinct admitted modules,
    searchModules_eq_none_iff named distinct admitted modules,
    searchModules_of_missing named distinct admitted,
    fun root found => ?_, fun other namedOther distinctOther same => ?_,
    finite_ways named distinct modules⟩
  · cases directory : files.isDirectory (joinText modules name) with
    | true =>
        obtain rfl := Option.some.inj ((direct directory).symm.trans found)
        exact isFile_eq_false_of_isDirectory directory
    | false =>
        obtain ⟨way, first, rfl⟩ :=
          (searchModules_eq_some_iff named distinct admitted modules directory
            root).mp found
        exact first.1.1.isFile_eq_false named
  · have sameDirect := same.isDirectory_eq (joinText modules name)
    cases directory : files.isDirectory (joinText modules name) with
    | true => rw [direct directory, direct (sameDirect.trans directory)]
    | false =>
        apply Option.ext
        intro root
        rw [searchModules_eq_some_iff named distinct admitted modules directory,
          searchModules_eq_some_iff namedOther distinctOther admitted modules
            (sameDirect.trans directory)]
        unfold IsFirstMatch
        simp only [same.isMatch_iff]

/-- The modules directory `/m` holds a link to itself, and the package `n` in
the directory `b`. -/
def loopedModules : FileSystem :=
  ⟨[("m",
      .directory [("b", .directory [("n", .directory [])]), ("a", .link ".")])],
    []⟩

private theorem locate_loopedModules :
    loopedModules.locate "/m/a" = .ok ["m"] := by
  have leads : loopedModules.Leads "/m/a" ["m"] :=
    leads_of_walk ["", "m", "a"] [] (by decide) (by decide)
      (walk_of_walkWithin 4 rfl)
  exact locate_eq_ok_iff.mpr ⟨by decide, by decide, by decide, leads⟩

private theorem directoriesUnder_loopedModules :
    loopedModules.directoriesUnder "/m" = ["/m/b", "/m/b/n"] := by
  have texts :
      joinText "/m" "a" = "/m/a" ∧ joinText "/m" "b" = "/m/b" ∧
        joinText "/m/b" "n" = "/m/b/n" := by
    decide
  have located : loopedModules.locate "/m" = .ok ["m"] :=
    locate_placeText ["m"] rfl rfl (by decide)
  have present : loopedModules.at? ["m"] =
      some (.directory
          [("b", .directory [("n", .directory [])]), ("a", .link ".")]) :=
        rfl
  have sorted :
      inOrder [("b", .directory [("n", .directory [])]), ("a", .link ".")] =
        [("a", .link "."), ("b", .directory [("n", .directory [])])] := by
    simp [inOrder, List.mergeSort]
  have alone : inOrder [("n", .directory [])] = [("n", .directory [])] :=
    List.mergeSort_singleton _
  have empty : inOrder [] = [] := List.mergeSort_nil
  have entered : loopedModules.isDirectory "/m/b" = true :=
    isDirectory_iff.mpr
      ⟨["b", "m"], _,
        locate_placeText ["b", "m"] rfl rfl (by decide),
        rfl⟩
  have inPackage :
      loopedModules.directoriesBelow [["n", "b", "m"], ["b", "m"], ["m"]]
            "/m/b/n" ["n", "b", "m"] [] = [] := by
    rw [directoriesBelow_eq, empty, List.flatMap_nil]
  have inOther :
      loopedModules.directoriesBelow [["b", "m"], ["m"]] "/m/b" ["b", "m"]
            [("n", .directory [])] = ["/m/b/n"] := by
    rw [directoriesBelow_eq, alone, List.flatMap_singleton]
    simp only [directoriesFrom, texts, inPackage, ite_self]
  unfold directoriesUnder
  simp only [located, present]
  rw [directoriesBelow_eq, sorted, List.flatMap_cons, List.flatMap_singleton]
  simp only [directoriesFrom, texts, locate_loopedModules, present, entered,
    if_true, inOther]
  rfl

theorem search_finds_first_match_loopedModules :
    loopedModules.HasEntryNames ∧ loopedModules.HasDistinctNames ∧
      Reference.IsPackageName "n" ∧ loopedModules.isDirectory "/m/n" = false ∧
      loopedModules.searchModules "/m" "n" = some "/m/b/n" ∧
      (∃ way,
        loopedModules.IsFirstMatch "/m" "n" way ∧
        "/m/b/n" = joinNames "/m" way) ∧
      loopedModules.isFile "/m/b/n" = false := by
  have named : loopedModules.HasEntryNames := by decide
  have distinct : loopedModules.HasDistinctNames := by decide
  have admitted : Reference.IsPackageName "n" :=
    .plain (Reference.isSegment_iff.mpr (by decide)) (by decide)
  have direct : joinText "/m" "n" = "/m/n" := by decide
  have missing : loopedModules.locate "/m/n" = .error .notFound := by
    have way : steps "/m/n" = ["", "m", "n"] := by decide
    rw [locate, if_neg (by decide), if_neg (by decide), if_neg (by decide), way]
    exact walk_of_walkWithin 3 rfl
  have indirect : loopedModules.isDirectory "/m/n" = false := by
    rw [isDirectory, kind, find, missing]
  have found : loopedModules.searchModules "/m" "n" = some "/m/b/n" := by
    rw [searchModules, direct, indirect, if_neg Bool.false_ne_true,
      directoriesUnder_loopedModules]
    decide
  obtain ⟨_, first, _, _, noFile, _⟩ :=
    search_finds_first_match named distinct admitted "/m"
  exact ⟨named, distinct, admitted, indirect, found,
    (first (direct ▸ indirect) "/m/b/n").mp found, noFile "/m/b/n" found⟩

end FileSystem

end ConfigTree
