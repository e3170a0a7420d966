import ConfigTree.Proofs.Document.Twins
import ConfigTree.Proofs.FileSystem.Current

/-!
# Relative and absolute starts

A file is loaded alike from a relative path and from the path as it is seen from
the root, as long as the texts of the paths that are come by stay short enough
to be looked up (`load_of_spelling`). A relative path does not: it grows with
each name that climbs above the root, so an include that comes back to its own
file is not seen as a cycle there (`climbingFile_load_differs`).
-/

namespace ConfigTree.FileSystem

open Document (includePath includePath_of_not_absolute includes)

variable {files : FileSystem}

/-! ## Reading -/

private theorem find_seen
    {path : Path}
    (plain : files.HasPlainCurrent)
    (even : files.EvenlyLong path) :
    files.find (files.seen path).text = files.find path.text := by
  unfold find
  rw [locate_seen plain even]

private theorem readText_seen
    {path : Path}
    (plain : files.HasPlainCurrent)
    (even : files.EvenlyLong path) :
    files.readText (files.seen path).text = files.readText path.text := by
  unfold readText
  rw [find_seen plain even]

/-- A relative path that only climbs leads to a directory. -/
theorem readText_of_climbing
    {path : Path}
    (plain : files.HasPlainCurrent)
    (relative : path.anchor = .relative)
    (climbing : path.trail.filter (· ≠ "..") = []) (content : String) :
    files.readText path.text ≠ .ok content := by
  obtain ⟨children, inside⟩ := plain.directory
  obtain ⟨others, around⟩ := exists_children_drop inside (path.trail.count "..")
  obtain ⟨walked, _⟩ := walk_seen plain relative linkLimit
  rw [climbing, List.reverse_nil, walk_nil] at walked
  intro read
  cases located : files.locate path.text with
  | error obstacle =>
      rw [readText, find, located] at read
      cases read
  | ok place =>
      have same : place = files.current.drop (path.trail.count "..") := by
        obtain ⟨_, _, _, leads⟩ := locate_eq_ok_iff.mp located
        rw [Leads, walked] at leads
        exact (Except.ok.inj leads).symm
      have found : files.find path.text = .ok (.directory others) := by
        rw [find, located, same]
        dsimp only
        rw [around]
      rw [readText, found] at read
      cases read

/-- A relative path of a file ends with a name. -/
theorem exists_name_of_readText
    {path : Path}
    {content : String}
    (plain : files.HasPlainCurrent)
    (relative : path.anchor = .relative)
    (read : files.readText path.text = .ok content) :
    ∃ name above, path.trail = name :: above ∧ name ≠ ".." := by
  cases trail : path.trail with
  | nil =>
      have climbing : path.trail.filter (· ≠ "..") = [] := by
        rw [trail]
        rfl
      exact absurd read (readText_of_climbing plain relative climbing content)
  | cons name above =>
      refine ⟨name, above, rfl, fun dots => ?_⟩
      have all := path.isTrail
      rw [trail] at all
      have climbing : path.trail.filter (· ≠ "..") = [] := by
        rw [trail]
        apply List.filter_eq_nil_iff.mpr
        intro other member
        rcases List.mem_cons.mp member with rfl | later
        · simp [dots]
        · simp [(all.2.1 dots).2 other later]
      exact readText_of_climbing plain relative climbing content read

private theorem trail_seen_cons
    {path : Path}
    {name : String}
    {above : List String}
    (plain : files.HasPlainCurrent)
    (relative : path.anchor = .relative)
    (trail : path.trail = name :: above)
    (notDots : name ≠ "..") :
    (files.seen path).trail =
      name :: Path.retrace .root files.current above := by
  rw [trail_seen_eq_retrace plain relative, trail,
    Path.retrace_cons_name _ _ notDots]

/-- A path reads like the path seen from the root. -/
theorem readAlike_seen
    {path : Path}
    (plain : files.HasPlainCurrent)
    (even : files.EvenlyLong path) :
    files.ReadAlike path (files.seen path) := by
  by_cases relative : path.anchor = .relative
  · unfold ReadAlike readDocument
    rw [readText_seen plain even]
    cases read : files.readText path.text with
    | error obstacle => rfl
    | ok content =>
        obtain ⟨name, above, trail, notDots⟩ :=
          exists_name_of_readText plain relative read
        have format :
            Format.ofPath? (files.seen path) = Format.ofPath? path := by
          rw [Format.ofPath?, Format.ofPath?, Path.extension?, Path.extension?,
            Path.fileName?_of_trail trail,
            Path.fileName?_of_trail
              (trail_seen_cons plain relative trail notDots)]
        dsimp only
        rw [format]
        cases Format.ofPath? path with
        | none => rfl
        | some format =>
            dsimp only
            cases Document.ofText? format content with
            | none => rfl
            | some document => rfl
  · rw [seen_of_rooted relative]
    rfl

/-! ## Including -/

/-- The directory of a file has the names above the last one. What lies under a
share is left out. -/
theorem folder_of_trail
    {path : Path}
    {name : String}
    {above : List String}
    (noShare : path.anchor ≠ .share)
    (trail : path.trail = name :: above) :
    path.folder.anchor = path.anchor ∧ path.folder.trail = above := by
  obtain ⟨trailAbove, same | ⟨isShare, _⟩⟩ := Path.folder_parts trail
  · exact ⟨same, trailAbove⟩
  · exact absurd isShare noShare

/-- What a name means in a file is seen from the root alike, unless the name is
absolute by itself. -/
theorem includePath_seen
    {path : Path}
    {name : String}
    (plain : files.HasPlainCurrent)
    (names : files.Names path name) :
    includePath (files.seen path) name = includePath path name ∨
      includePath (files.seen path) name =
        files.seen (includePath path name) := by
  by_cases relative : path.anchor = .relative
  · by_cases absolute : (Path.ofText name).isAbsolute = true
    · left
      rw [includePath, includePath, if_pos absolute, if_pos absolute]
    · right
      obtain ⟨value, read, _⟩ := names
      have readable : ∃ content, files.readText path.text = .ok content := by
        cases found : files.readText path.text with
        | ok content => exact ⟨content, rfl⟩
        | error obstacle =>
            rw [readDocument, found] at read
            cases read
      obtain ⟨content, readText⟩ := readable
      obtain ⟨last, above, trail, notDots⟩ :=
        exists_name_of_readText plain relative readText
      have anchor := anchor_seen plain relative
      obtain ⟨anchorAbove, trailAbove⟩ :=
        folder_of_trail (by simp [relative]) trail
      obtain ⟨anchorSeen, trailSeen⟩ :=
        folder_of_trail (by simp [anchor])
          (trail_seen_cons plain relative trail notDots)
      rw [relative] at anchorAbove
      rw [anchor] at anchorSeen
      have directory : (files.seen path).folder = files.seen path.folder := by
        apply Path.eq_of_parts
        · rw [anchorSeen, anchor_seen plain anchorAbove]
        · rw [trailSeen, trail_seen_eq_retrace plain anchorAbove, trailAbove]
      rw [includePath_of_not_absolute absolute,
        includePath_of_not_absolute absolute, directory,
        join_seen plain anchorAbove]
  · left
    rw [seen_of_rooted relative]

/-! ## Loading -/

/-- The second path is the first one, or the first one seen from the root where
no path that is come by is too long to be looked up in only one of both ways. -/
def Spells (files : FileSystem) (path other : Path) : Prop :=
  other = path ∨
    (other = files.seen path ∧
      ∀ file,
        Relation.ReflTransGen files.Includes path file → files.EvenlyLong file)

private theorem isTwinning_spells
    (plain : files.HasPlainCurrent) :
    files.IsTwinning files.Spells where
  alike := by
    intro path other spells
    rcases spells with rfl | ⟨rfl, even⟩
    · rfl
    · exact readAlike_seen plain (even path .refl)
  inside := by
    intro path other name spells names
    rcases spells with rfl | ⟨rfl, even⟩
    · exact Or.inl rfl
    · have step : files.Includes path (includePath path name) :=
        ⟨name, names, rfl⟩
      rcases includePath_seen plain names with same | seen
      · exact Or.inl same
      · exact Or.inr ⟨seen, fun file leads => even file (.head step leads)⟩

/-- A file is loaded from a relative path as it is from the absolute one: with
the same document, or with a fault of the same kind. What is asked for is that
the names of the current directory are taken for names when a path is cleaned,
and that no path that is come by is too long to be looked up only as it is seen
from the root, or only otherwise. -/
theorem load_of_spelling
    {text : String} (plain : files.HasPlainCurrent) (nonempty : text ≠ "")
    (relative : (Path.ofText text).anchor = .relative)
    (kept : files.current ≠ [] ∨ '\\' ∉ text.toList)
    (even :
      ∀ file,
        Relation.ReflTransGen files.Includes (Path.ofText text) file →
          files.EvenlyLong file) :
    ∃ path, files.absolute text = .ok path ∧ path.anchor = .root ∧
      (files.load (Path.ofText text)).mapError LoadFault.kind =
        (files.load path).mapError LoadFault.kind ∧
      ((∃ target,
          files.load (Path.ofText text) = .error (.includeCycle target)) ↔
        ∃ target, files.load path = .error (.includeCycle target)) := by
  have same := load_of_twins (isTwinning_spells plain) (Or.inr ⟨rfl, even⟩)
  have cycle :
      ∀ path,
        (∃ target, files.load path = .error (.includeCycle target)) ↔
          (files.load path).mapError LoadFault.kind = .error .includeCycle := by
    intro path
    cases loaded : files.load path with
    | ok document => simp [Except.mapError]
    | error fault => simp [Except.mapError, LoadFault.kind_eq_includeCycle_iff]
  refine ⟨_, absolute_eq_seen plain nonempty relative kept,
    anchor_seen plain relative, same, ?_⟩
  rw [cycle, cycle, same]

/-! ## A file that includes itself -/

private theorem meets_of_single
    {path : Path} {content : Yaml.Value}
    (read :
      files.readDocument path =
        .ok (.yaml (.tagged Document.includeTag content))) :
    files.Meets path content :=
  ⟨_, [], [], read, by simp [includes], by simp⟩

private theorem load_of_own_include
    {path : Path} {name : String}
    (read :
      files.readDocument path =
        .ok (.yaml (.tagged Document.includeTag (.string name))))
    (own : includePath path name = path) :
    files.load path = .error (.includeCycle path) := by
  refine (loadWithin_eq_includeCycle_iff List.not_mem_nil (leadTo_nil path)).mpr
    ?_
  exact ⟨[], path, name, .here (meets_of_single read), own,
    List.mem_cons_self ..⟩

/-- The root, from which relative paths start, holds the file `main.yaml` with a
text. -/
def mainHolding (text : String) : FileSystem :=
  ⟨[("main.yaml", .file text.toUTF8)], []⟩

private theorem plain_mainHolding
    (text : String) : (mainHolding text).HasPlainCurrent where
  directory := ⟨_, rfl⟩
  names := fun _ member => absurd member List.not_mem_nil
  kept := fun _ member => absurd member List.not_mem_nil

private theorem readDocument_mainHolding
    {text : String}
    {value : Yaml.Value}
    (parsed : Yaml.Value.ofText? text = some value) :
    (mainHolding text).readDocument (Path.ofText "/main.yaml") =
      .ok (.yaml value) := by
  have content : (mainHolding text).readText "/main.yaml" = .ok text :=
    readText_placeText ["main.yaml"] rfl (by decide)
  have document : Document.ofText? .yaml text = some (.yaml value) := by
    rw [Document.ofText?, parsed]
    rfl
  have format : Format.ofPath? (Path.ofText "/main.yaml") = some .yaml := rfl
  exact readDocument_of_format content format document

theorem load_of_spelling_mainHolding :
    (mainHolding "!include main.yaml").HasPlainCurrent ∧
      (Path.ofText "main.yaml").anchor = .relative ∧
      (∀ file,
        Relation.ReflTransGen (mainHolding "!include main.yaml").Includes
          (Path.ofText "main.yaml") file →
          (mainHolding "!include main.yaml").EvenlyLong file) ∧
      (∃ path,
        (mainHolding "!include main.yaml").absolute "main.yaml" = .ok path ∧
        ∃ target,
          (mainHolding "!include main.yaml").load path =
            .error (.includeCycle target)) ∧
      ∃ target,
        (mainHolding "!include main.yaml").load (Path.ofText "main.yaml") =
          .error (.includeCycle target) := by
  have plain := plain_mainHolding "!include main.yaml"
  have seen :
      (mainHolding "!include main.yaml").seen (Path.ofText "main.yaml") =
        Path.ofText "/main.yaml" := by
    decide
  have short :
      (mainHolding "!include main.yaml").EvenlyLong
        (Path.ofText "main.yaml") := by
    decide
  have alike := readAlike_seen plain short
  rw [seen] at alike
  have parsed :
      Yaml.Value.ofText? "!include main.yaml" =
        some (.tagged Document.includeTag (.string "main.yaml")) :=
    ofText?_include (by decide +kernel) rfl
  have read := alike.symm.read_ok (readDocument_mainHolding parsed)
  have even :
      ∀ file,
        Relation.ReflTransGen (mainHolding "!include main.yaml").Includes
          (Path.ofText "main.yaml") file →
          (mainHolding "!include main.yaml").EvenlyLong file := by
    intro file leads
    have same : file = Path.ofText "main.yaml" := by
      induction leads with
      | refl => rfl
      | tail _ step inductionHypothesis =>
          obtain ⟨name, ⟨value, again, member⟩, rfl⟩ := step
          rw [inductionHypothesis, read] at again
          cases again
          obtain rfl : name = "main.yaml" := by
            simpa [includes, Document.includeTag] using member
          rw [inductionHypothesis]
          decide
    rw [same]
    exact short
  have cycle := load_of_own_include read (by decide)
  obtain ⟨path, absolute, _, _, both⟩ :=
    load_of_spelling plain (by decide) (by decide) (Or.inr (by decide)) even
  exact ⟨plain, by decide, even, ⟨path, absolute, both.mp ⟨_, cycle⟩⟩, _, cycle⟩

/-- A name that climbs above the root and comes back to the file. -/
def climbingFile : FileSystem :=
  mainHolding "!include ../main.yaml"

/-- What the file is called by so many includes of itself, from the relative
path on. -/
def climbed : Nat → Path
  | 0 => Path.ofText "main.yaml"
  | levels + 1 => includePath (climbed levels) "../main.yaml"

private theorem parts_climbed :
    ∀ levels,
      (climbed levels).anchor = .relative ∧
      (climbed levels).trail = "main.yaml" :: List.replicate levels ".."
  | 0 => by decide
  | levels + 1 => by
      obtain ⟨anchor, trail⟩ := parts_climbed levels
      obtain ⟨anchorAbove, trailAbove⟩ :=
        folder_of_trail (by simp [anchor]) trail
      rw [anchor] at anchorAbove
      have relative : ¬ (Path.ofText "../main.yaml").isAbsolute = true := by
        decide
      have whole :
          climbed (levels + 1) = (climbed levels).folder.join "../main.yaml" :=
        includePath_of_not_absolute relative _
      have climbs :
          Path.step .relative (List.replicate levels "..") ".." =
            List.replicate (levels + 1) ".." :=
        Path.up_dots levels
      have split : Path.pieces "../main.yaml" = ["..", "main.yaml"] := by decide
      have named : IsEntryName "main.yaml" := by decide
      rw [whole, Path.trail_join_eq_foldl, split, anchorAbove, trailAbove,
        List.foldl_cons, List.foldl_cons, List.foldl_nil, climbs,
        Path.step_name _ _ named]
      exact ⟨anchorAbove, rfl⟩

private theorem utf8ByteSize_climbed
    (levels : Nat) :
    (climbed levels).text.utf8ByteSize = 9 + 3 * levels := by
  obtain ⟨anchor, trail⟩ := parts_climbed levels
  have climbs : Path.extent (List.replicate levels "..") = 3 * levels := by
    have three : "..".utf8ByteSize + 1 = 3 := by decide
    rw [Path.extent, List.map_replicate, three, List.sum_replicate_nat,
      Nat.mul_comm]
  have named : (climbed levels).trail ≠ [] := by simp [trail]
  have written := Path.utf8ByteSize_text named
  have nothing : Anchor.relative.text.utf8ByteSize = 0 := by decide
  have name : "main.yaml".utf8ByteSize = 9 := by decide
  rw [anchor, nothing, trail, Path.extent_cons, climbs] at written
  omega

private theorem seen_climbed
    (levels : Nat) :
    climbingFile.seen (climbed levels) = Path.ofText "/main.yaml" := by
  obtain ⟨anchor, trail⟩ := parts_climbed levels
  have plain : climbingFile.HasPlainCurrent := plain_mainHolding _
  have current : climbingFile.current = [] := rfl
  apply Path.eq_of_parts
  · rw [anchor_seen plain anchor]
    decide
  · have climbs : (List.replicate levels "..").filter (· ≠ "..") = [] := by simp
    rw [trail_seen plain anchor, trail, current, List.drop_nil, List.append_nil,
      List.filter_cons_of_pos (by decide), climbs]
    decide

private theorem parsed_climbingFile :
    Yaml.Value.ofText? "!include ../main.yaml" =
      some (.tagged Document.includeTag (.string "../main.yaml")) :=
  ofText?_include (by decide +kernel) rfl

private theorem readDocument_climbed
    {levels : Nat} (short : (climbed levels).text.utf8ByteSize < pathLimit) :
    climbingFile.readDocument (climbed levels) =
      .ok (.yaml (.tagged Document.includeTag (.string "../main.yaml"))) := by
  have even : climbingFile.EvenlyLong (climbed levels) := by
    rw [EvenlyLong, seen_climbed]
    exact iff_of_true short (by decide)
  have plain : climbingFile.HasPlainCurrent := plain_mainHolding _
  have alike := readAlike_seen plain even
  rw [seen_climbed] at alike
  exact alike.symm.read_ok (readDocument_mainHolding parsed_climbingFile)

private theorem readDocument_of_long
    {path : Path}
    (noNul : '\x00' ∉ path.text.toList)
    (long : pathLimit ≤ path.text.utf8ByteSize) :
    files.readDocument path = .error (.obstacle path.text .nameTooLong) := by
  have located : files.locate path.text = .error .nameTooLong := by
    unfold locate
    rw [if_neg (by simpa using noNul), if_neg (Path.text_ne_empty _),
      if_pos long]
  rw [readDocument, readText, find, located]

private theorem breaks_climbed :
    ∀ (room levels : Nat), pathLimit ≤ 9 + 3 * (levels + room) →
      climbingFile.Breaks (climbed levels) (.obstacle .nameTooLong)
  | 0, levels, long => by
      have noNul : '\x00' ∉ (climbed levels).text.toList := by
        intro nul
        rcases Path.mem_text nul with slash | dot | ⟨name, among, inName⟩
        · cases slash
        · cases dot
        · rw [(parts_climbed levels).2] at among
          rcases List.mem_cons.mp among with rfl | climbs
          · exact absurd inName (by decide)
          · rw [List.eq_of_mem_replicate climbs] at inName
            exact absurd inName (by decide)
      have tooLong : pathLimit ≤ (climbed levels).text.utf8ByteSize := by
        rw [utf8ByteSize_climbed]
        omega
      exact .unread (readDocument_of_long noNul tooLong)
  | room + 1, levels, long => by
      by_cases short : (climbed levels).text.utf8ByteSize < pathLimit
      · have deeper := breaks_climbed room (levels + 1) (by omega)
        exact .inside (meets_of_single (readDocument_climbed short)) deeper
      · rw [utf8ByteSize_climbed] at short
        exact breaks_climbed 0 levels (by omega)

/-- From the root the file is seen to include itself. From its relative path
each include climbs one level more, until the path is too long. -/
theorem climbingFile_load_differs :
    climbingFile.absolute "main.yaml" = .ok (Path.ofText "/main.yaml") ∧
      climbingFile.load (Path.ofText "/main.yaml") =
        .error (.includeCycle (Path.ofText "/main.yaml")) ∧
      ∃ fault,
        climbingFile.load (Path.ofText "main.yaml") = .error fault ∧
        fault.kind = .obstacle .nameTooLong := by
  have absolute :
      climbingFile.absolute "main.yaml" =
        .ok (climbingFile.seen (Path.ofText "main.yaml")) :=
    absolute_eq_seen (plain_mainHolding _) (by decide) (by decide)
      (Or.inr (by decide))
  have read : climbingFile.readDocument (Path.ofText "/main.yaml") =
      .ok (.yaml (.tagged Document.includeTag (.string "../main.yaml"))) :=
    readDocument_mainHolding parsed_climbingFile
  refine ⟨?_, load_of_own_include read (by decide), ?_⟩
  · rw [absolute]
    exact congrArg Except.ok (seen_climbed 0)
  · exact exists_load_of_breaks (breaks_climbed pathLimit 0 (by decide))

end ConfigTree.FileSystem
