import ConfigTree.Proofs.FileSystem.Stages
import ConfigTree.Proofs.Path.Climbing
import ConfigTree.Proofs.Reference.Grammar
import ConfigTree.Proofs.Resolver.Coercion
import ConfigTree.Proofs.Resolver.Directories

/-!
# Where nested references start

The references inside a file are relative to the directory that the file lies
in, as its includes are, and lead to what is reached from there, unless the file
is named by a single relative name. Main statement:
`nested_references_start_beside_file`. Inside a file with such a name they start
at the file itself, as if it were a directory
(`nested_reference_starts_inside_file`).
-/

namespace ConfigTree

/-! ## Starting at a file -/

namespace Path

/-- Only a relative path of one name has no directory before the name. -/
theorem parent?_eq_none_iff {path : Path} (named : path.trail ≠ []) :
    path.parent? = none ↔
      ∃ name, path.anchor = .relative ∧ path.trail = [name] := by
  constructor
  · intro none
    have relative : path.anchor = .relative := by
      by_contra rooted
      obtain ⟨directory, above⟩ := exists_parent rooted named
      rw [none] at above
      cases above
    obtain ⟨anchor, names, all⟩ := path
    rcases names with _ | ⟨name, _ | ⟨next, rest⟩⟩
    · exact absurd rfl named
    · exact ⟨name, relative, rfl⟩
    · cases relative
      cases none
  · rintro ⟨name, relative, single⟩
    obtain ⟨anchor, names, all⟩ := path
    cases relative
    cases single
    rfl

@[simp]
theorem iterate_up_dots (levels : Nat) :
    ∀ steps,
      (up .relative)^[steps] (List.replicate levels "..") =
        List.replicate (levels + steps) ".."
  | 0 => rfl
  | steps + 1 => by
      rw [Function.iterate_succ_apply', iterate_up_dots levels steps, up_dots,
        Nat.add_assoc]

/-- Climbing from a name never leads to where it leads from no name. -/
theorem iterate_up_name_ne (name : String) (steps : Nat) :
    (up .relative)^[steps] [name] ≠ (up .relative)^[steps] [] := by
  have outside :
      ∀ count, (up .relative)^[count] [] = List.replicate count ".." := by
    intro count
    have climbed := iterate_up_dots 0 count
    rwa [List.replicate_zero, Nat.zero_add] at climbed
  have longer :
      ∀ levels,
        List.replicate (levels + 1) ".." ≠ List.replicate levels ".." := by
    intro levels same
    have lengths := congrArg List.length same
    rw [List.length_replicate, List.length_replicate] at lengths
    omega
  rw [outside]
  by_cases drive : name.toList.getLast? = some ':'
  · have stays : up .relative [name] = [name] := by simp [up, step, drive]
    rw [Function.iterate_fixed stays]
    intro same
    have dots := List.eq_of_mem_replicate (same ▸ List.mem_singleton_self name)
    rw [dots] at drive
    exact absurd drive (by decide)
  · by_cases dots : name = ".."
    · have one : [name] = List.replicate 1 ".." := by
        rw [dots]
        rfl
      rw [one, iterate_up_dots, Nat.add_comm]
      exact longer steps
    · cases steps with
      | zero => exact List.cons_ne_nil _ _
      | succ before =>
          have back : up .relative [name] = [] := by
            simp [up, step, drive, dots]
          rw [Function.iterate_succ_apply, back, outside]
          exact (longer before).symm

end Path

/-- What is joined to where a file's references start is joined to the directory
of the file if and only if the file's path has a directory before the name. -/
theorem Setting.join_homeOf_iff
    {path : Path} (named : path.trail ≠ []) (segment : String) :
    (homeOf path).join segment = path.folder.join segment ↔
      path.parent? ≠ none := by
  constructor
  · intro same none
    obtain ⟨name, relative, single⟩ := (Path.parent?_eq_none_iff named).mp none
    have trails := congrArg Path.trail same
    rw [homeOf, Path.folder, none, Option.getD_none, Option.getD_none,
      Path.trail_join, Path.trail_join, List.append_cancel_left_eq, Path.climb,
      Path.climb, relative, single] at trails
    exact Path.iterate_up_name_ne name (Path.climbs segment) trails
  · intro above
    obtain ⟨directory, parent⟩ := Option.ne_none_iff_exists'.mp above
    rw [homeOf, Path.folder, parent, Option.getD_some, Option.getD_some]

namespace FileSystem

variable {files : FileSystem}

/-! ## The directory of a file -/

private theorem exists_place_of_isFile
    {text : String} (isFile : files.kind text = .ok .file) :
    ∃ name place content, files.locate text = .ok (name :: place) ∧
      files.at? (name :: place) = some (.file content) := by
  have same : files.isFile text = true := by rw [FileSystem.isFile, isFile]
  obtain ⟨place, content, located, present⟩ := isFile_iff.mp same
  cases place with
  | nil =>
      rw [at?_root] at present
      cases present
  | cons name above => exact ⟨name, above, content, located, present⟩

section Inside

variable {path : Path} {name : String} {place : Place} {content : ByteArray}

private theorem trail_ne_nil_of_leads
    (isFile : files.at? (name :: place) = some (.file content))
    (reached : files.Leads path.text (name :: place)) :
    path.trail ≠ [] := by
  intro empty
  obtain ⟨⟨children, inside⟩, walked⟩ := (leads_text_iff _ _).mp reached
  rw [empty, List.reverse_nil, walk_nil] at walked
  rw [Except.ok.inj walked, isFile] at inside
  cases inside

/-- The directory of a path that leads to a file leads to where the last name of
the path is looked up. -/
theorem exists_leads_folder
    (isFile : files.at? (name :: place) = some (.file content))
    (reached : files.Leads path.text (name :: place)) :
    ∃ own left folder,
      (own ≠ "" ∧ own ≠ ".") ∧ files.Leads path.folder.text folder ∧
      files.walk left folder [own] = .ok (name :: place) := by
  obtain ⟨own, above, trail⟩ :=
    List.exists_cons_of_ne_nil (trail_ne_nil_of_leads isFile reached)
  obtain ⟨start, walked⟩ := (leads_text_iff _ _).mp reached
  obtain ⟨trailAbove, anchorAbove⟩ := Path.folder_parts trail
  have origin : files.origin path.folder.anchor = files.origin path.anchor := by
    rcases anchorAbove with same | ⟨isShare, isRoot⟩
    · rw [same]
    · rw [isShare, isRoot]
      rfl
  have proper : IsTrail path.anchor (own :: above) := trail ▸ path.isTrail
  rw [trail, List.reverse_cons] at walked
  obtain ⟨left, folder, last, others⟩ := exists_left_of_walk_append walked
  have before := others []
  rw [List.append_nil, walk_nil] at before
  refine ⟨own, left, folder, ⟨proper.1.1, proper.1.2.1⟩, ?_, last⟩
  rw [leads_text_iff, origin, trailAbove]
  exact ⟨start, before⟩

/-- Without links, a file lies where its name is looked up. -/
theorem eq_of_walk_to_file
    (real : files.HasNoLinks)
    (isFile : files.at? (name :: place) = some (.file content))
    {own : String}
    {left : Nat}
    {folder : Place}
    (named : own ≠ "" ∧ own ≠ ".")
    (walked : files.walk left folder [own] = .ok (name :: place)) :
    folder = place := by
  obtain ⟨⟨children, around⟩, stays | climbs | enters⟩ :=
    walk_step_cases real walked
  · exact absurd stays.1 (not_or.mpr named)
  · -- What lies above a directory is no file.
    cases folder with
    | nil => cases climbs.2
    | cons inner outer =>
        obtain ⟨others, outside⟩ := exists_children_of_at? around
        have same : outer = name :: place := climbs.2.symm
        rw [same, isFile] at outside
        cases outside
  · cases enters.2.1
    rfl

private theorem nul_not_mem_text_folder
    (named : path.trail ≠ []) (noNul : '\x00' ∉ path.text.toList) :
    '\x00' ∉ path.folder.text.toList := by
  intro nul
  obtain ⟨own, above, trail⟩ := List.exists_cons_of_ne_nil named
  rcases Path.mem_text nul with slash | dot | ⟨other, among, inName⟩
  · cases slash
  · cases dot
  · rw [(Path.folder_parts trail).1] at among
    have inPath : other ∈ path.trail := trail ▸ List.mem_cons_of_mem _ among
    exact noNul (Path.mem_text_of_mem_trail inPath inName)

end Inside

/-! ## Seen from a directory -/

section Behind

variable {directory : Path} {folder found : Place} {segment : String}

private theorem nul_not_mem_text_join
    (noNul : '\x00' ∉ directory.text.toList)
    (noNulBehind : '\x00' ∉ segment.toList) :
    '\x00' ∉ (directory.join segment).text.toList := by
  intro nul
  rcases Path.mem_text_join nul with slash | dot | inDirectory | inSegment
  · cases slash
  · cases dot
  · exact noNul inDirectory
  · exact noNulBehind inSegment

private theorem walk_of_located (relative : segment.toList.head? ≠ some '/')
    (reached : (files.seenIn folder).locate segment = .ok found) :
    '\x00' ∉ segment.toList ∧
      files.walk linkLimit folder (steps segment) = .ok found := by
  obtain ⟨noNul, _, _, further⟩ := locate_eq_ok_iff.mp reached
  have start : start (files.seenIn folder).current segment = folder :=
    if_neg relative
  rw [Leads, start, walk_seenIn] at further
  exact ⟨noNul, further⟩

/-- What is reached by a text that does not climb is what is led to by the text
that is joined to the path of the directory, unless more links have been
followed on the way to the directory than are left then. -/
theorem locate_join_of_dots_not_mem
    (toFolder : files.Leads directory.text folder)
    (noNul : '\x00' ∉ directory.text.toList)
    (relative : segment.toList.head? ≠ some '/')
    (plain : '\\' ∉ segment.toList)
    (noClimb : ".." ∉ steps segment)
    (short : (directory.join segment).text.utf8ByteSize < pathLimit)
    (reached : (files.seenIn folder).locate segment = .ok found) :
    files.locate (directory.join segment).text = .ok found ∨
      files.locate (directory.join segment).text = .error .tooManyLinks := by
  obtain ⟨noNulBehind, further⟩ := walk_of_located relative reached
  obtain ⟨entered, trails, leads⟩ := exists_entered_of_walk noClimb further
  obtain ⟨⟨children, inside⟩, walked⟩ := (leads_text_iff _ _).mp toFolder
  rw [← List.append_nil directory.trail.reverse] at walked
  obtain ⟨left, middle, still, others⟩ := exists_left_of_walk_append walked
  rw [walk_nil] at still
  obtain rfl := Except.ok.inj still
  have trail :
      (directory.join segment).trail = entered.reverse ++ directory.trail := by
    rw [Path.trail_join_eq_foldl, pieces_eq_steps plain, trails]
  have whole :
      files.locate (directory.join segment).text =
        files.walk left middle entered := by
    rw [locate_of_short (nul_not_mem_text_join noNul noNulBehind)
        (Path.text_ne_empty _) short,
      walk_steps_text (directory.join segment) inside, trail,
      List.reverse_append, List.reverse_reverse]
    exact others entered
  rw [whole]
  exact walk_links linkLimit entered leads left

/-- Without links, the text may climb as well. -/
theorem locate_join_of_hasNoLinks
    (real : files.HasNoLinks)
    (toFolder : files.Leads directory.text folder)
    (noNul : '\x00' ∉ directory.text.toList)
    (relative : segment.toList.head? ≠ some '/')
    (plain : '\\' ∉ segment.toList)
    (noDrive : HasNoDrive directory.trail)
    (noDriveBehind : HasNoDrive (steps segment))
    (short : (directory.join segment).text.utf8ByteSize < pathLimit)
    (reached : (files.seenIn folder).locate segment = .ok found) :
    files.locate (directory.join segment).text = .ok found := by
  obtain ⟨noNulBehind, further⟩ := walk_of_located relative reached
  exact locate_eq_ok_iff.mpr
    ⟨nul_not_mem_text_join noNul noNulBehind, Path.text_ne_empty _, short,
      leads_text_join real plain noDrive noDriveBehind toFolder further⟩

end Behind

end FileSystem

/-! ## References inside files -/

namespace Setting

variable {setting : Setting} {cache : PackageCache} {resolving : List Path}
  {directory : Path}

/-- A reference to something near by results in what following its path does. -/
theorem stringResult_relative (directory : Path) (rest : String) :
    setting.stringResult cache resolving directory ("./" ++ rest) =
      (setting.followOutcome (cache.answer setting.search) resolving
        (directory.join ("./" ++ rest))).result := by
  rw [stringResult]
  apply stringOutcome_of_target
  rw [targetOf, Reference.classify_of_relative]

/-- The content of a file that a string opens is resolved from the home of the
file. Each reference to something near by in it results in what following its
path from there does, and that stands at its place in what comes out. The path
is the one from the directory of the file, as for an include of the same text
that is no drive, if and only if the path of the file is not relative with a
single name. The path from the directory of the file leads to what a process
that stands there reaches by the reference: whatever links there are if the
reference does not climb, as long as there are not too many, and if it climbs
where nothing is a link and no name ends with a colon. -/
theorem nested_references_start_beside_file
    {value : String}
    {path : Path}
    {content : Node}
    (opens : setting.Opens cache directory value path content)
    (fresh : path ∉ resolving) :
    setting.result cache resolving directory (.string value) =
        (setting.result cache (path :: resolving) (homeOf path)
          content).mapError (·.under []) ∧
      (∀ rest,
        setting.stringResult cache (path :: resolving) (homeOf path)
            ("./" ++ rest) =
          (setting.followOutcome (cache.answer setting.search)
            (path :: resolving) ((homeOf path).join ("./" ++ rest))).result) ∧
      (∀ (node : Node) (way : KeyPath) (rest : String),
        setting.result cache resolving directory (.string value) = .ok node →
        content.at? way = some (.string ("./" ++ rest)) →
        ∃ part, node.at? (content.place way) = some part ∧
          setting.stringResult cache (path :: resolving) (homeOf path)
              ("./" ++ rest) = .ok part) ∧
      (∀ rest,
        ((homeOf path).join ("./" ++ rest) = path.folder.join ("./" ++ rest) ↔
            ¬∃ name, path.anchor = .relative ∧ path.trail = [name]) ∧
        (¬ Document.IsDrive ("./" ++ rest) →
          Document.includePath path ("./" ++ rest) =
            path.folder.join ("./" ++ rest))) ∧
      ∃ place, setting.files.Leads path.folder.text place ∧
        (setting.files.HasNoLinks →
          ∃ name, setting.files.locate path.text = .ok (name :: place)) ∧
        ∀ (rest : String) (found : Place), '\\' ∉ rest.toList →
          (path.folder.join ("./" ++ rest)).text.utf8ByteSize <
            FileSystem.pathLimit →
          (setting.files.seenIn place).locate ("./" ++ rest) = .ok found →
          (".." ∉ FileSystem.steps ("./" ++ rest) →
            setting.files.locate (path.folder.join ("./" ++ rest)).text =
              .ok found ∨
              setting.files.locate (path.folder.join ("./" ++ rest)).text =
                .error .tooManyLinks) ∧
          (setting.files.HasNoLinks → FileSystem.HasNoDrive path.folder.trail →
            FileSystem.HasNoDrive (FileSystem.steps ("./" ++ rest)) →
            setting.files.locate (path.folder.join ("./" ++ rest)).text =
                .ok found) := by
  obtain ⟨name, place, bytes, located, isFile⟩ :=
    FileSystem.exists_place_of_isFile opens.isFile
  obtain ⟨noNul, _, _, toFile⟩ := FileSystem.locate_eq_ok_iff.mp located
  have named := FileSystem.trail_ne_nil_of_leads isFile toFile
  have head : ∀ rest, ("./" ++ rest).toList.head? = some '.' := by
    intro rest
    rw [String.toList_append]
    rfl
  refine ⟨result_of_opens opens fresh, stringResult_relative _, ?_, ?_, ?_⟩
  · intro node way rest ended there
    obtain ⟨_, endedContent⟩ := result_inside_of_opens opens ended
    have unique := hasUniqueKeys_of_readTarget opens.read
    obtain ⟨part, standing, own, _⟩ := result_part unique endedContent there
    exact ⟨part, standing, result_string_eq_ok_iff.mp own⟩
  · intro rest
    have relative : (Path.ofText ("./" ++ rest)).anchor = .relative := by
      apply (Path.anchorOf_eq_relative_iff _).mpr
      intro c first
      obtain rfl := Option.some.inj ((head rest).symm.trans first)
      decide
    rw [join_homeOf_iff named, ← Path.parent?_eq_none_iff named]
    exact ⟨Iff.rfl, fun noDrive =>
      Document.includePath_of_not_absolute
        (Document.not_isAbsolute_of_not_isDrive relative noDrive) path⟩
  · obtain ⟨own, left, folder, notStill, toFolder, last⟩ :=
      FileSystem.exists_leads_folder isFile toFile
    have noNulAbove := FileSystem.nul_not_mem_text_folder named noNul
    refine ⟨folder, toFolder, fun real => ⟨name, ?_⟩, ?_⟩
    · rw [FileSystem.eq_of_walk_to_file real isFile notStill last]
      exact located
    · intro rest found plain short reached
      have notSlash : ("./" ++ rest).toList.head? ≠ some '/' := by
        rw [head]
        decide
      have noBackslash : '\\' ∉ ("./" ++ rest).toList := by
        rw [String.toList_append, List.mem_append]
        intro either
        rcases either with inMark | inRest
        · exact absurd inMark (by decide)
        · exact plain inRest
      exact ⟨fun noClimb => FileSystem.locate_join_of_dots_not_mem toFolder
          noNulAbove notSlash noBackslash noClimb short reached,
        fun real noDrive noDriveBehind => FileSystem.locate_join_of_hasNoLinks
          real toFolder noNulAbove notSlash noBackslash noDrive noDriveBehind
          short reached⟩

/-- The current directory `/w` holds a file that refers to the file beside
it. -/
def besideEachOther : FileSystem :=
  ⟨[("w",
      .directory
        [("p.json", .file "[\"./n\"]".toUTF8), ("n", .file "hello".toUTF8)])],
    ["w"]⟩

private theorem parsed_besideEachOther :
    Json.Value.ofText? "[\"./n\"]" = some (.array [.string "./n"]) :=
  rfl

private theorem locate_besideEachOther :
    (besideEachOther.seenIn ["w"]).locate "./n" = .ok ["n", "w"] := by
  have leads : (besideEachOther.seenIn ["w"]).Leads "./n" ["n", "w"] :=
    FileSystem.leads_of_walk [".", "n"] ["w"] (by decide) (by decide)
      (FileSystem.walk_of_walkWithin 2 rfl)
  exact FileSystem.locate_eq_ok_iff.mpr ⟨by decide, by decide, by decide, leads⟩

/-- A package root that is seen from the root: references start beside the
file. -/
theorem nested_references_start_beside_file_rooted :
    let setting := ofListed besideEachOther [("p", "/w")]
    let path := Path.ofText "/w/p.json"
    setting.Opens .empty (Path.ofText "/") "[module] p/p.json" path
      (.sequence [.string "./n"]) ∧ path ∉ ([] : List Path) ∧
      (homeOf path).join "./n" = path.folder.join "./n" ∧
      Document.includePath path "./n" = path.folder.join "./n" ∧
      (besideEachOther.seenIn ["w"]).locate "./n" = .ok ["n", "w"] ∧
      besideEachOther.locate (path.folder.join "./n").text =
        .ok ["n", "w"] := by
  have leads :
      targetOf
          (PackageCache.empty.answer
            (ofListed besideEachOther [("p", "/w")]).search) (Path.ofText "/")
          "[module] p/p.json" = some (Path.ofText "/w/p.json") := by
    decide
  have present :
      besideEachOther.find (Path.ofText "/w/p.json").text =
        .ok (.file "[\"./n\"]".toUTF8) :=
    FileSystem.find_placeText ["p.json", "w"] rfl rfl (by decide)
  have located :
      besideEachOther.locate (Path.ofText "/w/p.json").text =
        .ok ["p.json", "w"] :=
    FileSystem.locate_placeText ["p.json", "w"] rfl rfl (by decide)
  have opens :
      (ofListed besideEachOther [("p", "/w")]).Opens .empty (Path.ofText "/")
        "[module] p/p.json" (Path.ofText "/w/p.json")
        (.sequence [.string "./n"]) :=
    opens_of_json leads present rfl parsed_besideEachOther rfl rfl
  have fresh : Path.ofText "/w/p.json" ∉ ([] : List Path) := List.not_mem_nil
  have real : besideEachOther.HasNoLinks := by decide
  have segment : "./n" = "./" ++ "n" := by decide
  have named :
      ¬∃ name,
        (Path.ofText "/w/p.json").anchor = .relative ∧
          (Path.ofText "/w/p.json").trail = [name] := by
    rintro ⟨_, relative, _⟩
    exact absurd relative (by decide)
  obtain ⟨_, _, _, starts, place, _, lies, reaches⟩ :=
    nested_references_start_beside_file opens fresh
  obtain ⟨name, again⟩ := lies real
  obtain ⟨rfl, rfl⟩ := List.cons.inj (Except.ok.inj (again.symm.trans located))
  obtain ⟨same, included⟩ := starts "n"
  obtain ⟨_, seen⟩ :=
    reaches "n" ["n", "w"] (by decide) (by decide)
      (segment ▸ locate_besideEachOther)
  have found := seen real (by decide) (by decide)
  rw [← segment] at same included found
  exact ⟨opens, fresh, same.mpr named, included (by decide),
    locate_besideEachOther, found⟩

/-- A package root that is the current directory: the reference inside the file
starts at the file, where there is nothing, although the file that it means lies
beside, where an include finds it. -/
theorem nested_reference_starts_inside_file :
    ((Resolver.mk (Path.ofText "/w") nestedOptions (some [("p", ".")])).resolve
        besideEachOther (.string "[module] p/p.json")).1 =
      .error ⟨[[], [.position 0]], .load (.obstacle "p.json/n" .notDirectory)⟩ ∧
      besideEachOther.locate
          (Document.includePath (Path.ofText "p.json") "./n").text =
        .ok ["n", "w"] := by
  have leads :
      targetOf
          (PackageCache.empty.answer
            (ofListed besideEachOther [("p", ".")]).search) (Path.ofText "/w")
          "[module] p/p.json" = some (Path.ofText "p.json") := by
    decide
  have located :
      besideEachOther.locate (Path.ofText "p.json").text =
        .ok ["p.json", "w"] := by
    have leads :
        besideEachOther.Leads (Path.ofText "p.json").text ["p.json", "w"] :=
      FileSystem.leads_of_walk ["p.json"] ["w"] (by decide) (by decide)
        (FileSystem.walk_of_walkWithin 1 rfl)
    exact
      FileSystem.locate_eq_ok_iff.mpr ⟨by decide, by decide, by decide, leads⟩
  have present :
      besideEachOther.find (Path.ofText "p.json").text =
        .ok (.file "[\"./n\"]".toUTF8) := by
    rw [FileSystem.find, located]
    rfl
  have opens :
      (ofListed besideEachOther [("p", ".")]).Opens .empty (Path.ofText "/w")
        "[module] p/p.json" (Path.ofText "p.json")
        (.sequence [.string "./n"]) :=
    opens_of_json leads present rfl parsed_besideEachOther rfl rfl
  have starts :
      (homeOf (Path.ofText "p.json")).join "./n" = Path.ofText "p.json/n" := by
    decide
  have text : (Path.ofText "p.json/n").text = "p.json/n" := by decide
  have nothing : besideEachOther.locate "p.json/n" = .error .notDirectory := by
    have way : FileSystem.steps "p.json/n" = ["p.json", "n"] := by decide
    have start :
        FileSystem.start besideEachOther.current "p.json/n" = ["w"] := by
      decide
    rw [FileSystem.locate, if_neg (by decide), if_neg (by decide),
      if_neg (by decide), way, start]
    exact FileSystem.walk_of_walkWithin 2 rfl
  have missed :
      (ofListed besideEachOther [("p", ".")]).inspect (Path.ofText "p.json/n") =
        .error (.load (.obstacle "p.json/n" .notDirectory)) := by
    have files :
        (ofListed besideEachOther [("p", ".")]).files = besideEachOther :=
      rfl
    rw [inspect, files, text, FileSystem.kind, FileSystem.find, nothing]
  have segment : "./n" = "./" ++ "n" := by decide
  have failed :
      (ofListed besideEachOther [("p", ".")]).result .empty
          [Path.ofText "p.json"] (homeOf (Path.ofText "p.json"))
          (.string "./n") =
        .error ⟨[[]], .load (.obstacle "p.json/n" .notDirectory)⟩ := by
    rw [result_string, segment, stringResult_relative, ← segment, starts,
      followOutcome_eq, missed]
    rfl
  have fails :
      (ofListed besideEachOther [("p", ".")]).FailsAt .empty []
        (Path.ofText "/w") (.string "[module] p/p.json") [[], [.position 0]]
        (.load (.obstacle "p.json/n" .notDirectory)) :=
    .inside ⟨[], [], rfl, by simp⟩ opens List.not_mem_nil
      (.string ⟨[], [], rfl, by simp⟩ failed)
  refine ⟨?_, ?_⟩
  · have absolute : (Path.ofText "/w").isAbsolute = true := by decide
    rw [Resolver.resolve, Resolver.source]
    dsimp only
    rw [resolveWithCache_of_isAbsolute absolute, run_fst]
    exact result_of_failsAt fails
  · have included :
        Document.includePath (Path.ofText "p.json") "./n" =
          Path.ofText "n" := by
      decide
    have leads : besideEachOther.Leads (Path.ofText "n").text ["n", "w"] :=
      FileSystem.leads_of_walk ["n"] ["w"] (by decide) (by decide)
        (FileSystem.walk_of_walkWithin 1 rfl)
    rw [included]
    exact
      FileSystem.locate_eq_ok_iff.mpr ⟨by decide, by decide, by decide, leads⟩

end Setting

end ConfigTree
