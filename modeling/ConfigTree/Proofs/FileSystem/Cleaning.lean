import ConfigTree.Proofs.FileSystem.Walks
import ConfigTree.Proofs.Path.Texts

/-!
# Cleaning and walking

A path is cleaned by its text alone, and a walk looks every name up. Main
statement: without links and without names that end with a colon both come to
the same place (`cleaning_keeps_place`).
-/

namespace ConfigTree

namespace FileSystem

variable {files : FileSystem}

/-- The place that the steps of a text lead to, however long the text is. -/
def Leads (files : FileSystem) (text : String) (place : Place) : Prop :=
  files.walk linkLimit (start files.current text) (steps text) = .ok place

/-- Where the names of a path are walked from. -/
def origin (files : FileSystem) (anchor : Anchor) : Place :=
  if anchor = .relative then files.current else []

/-- Names that cleaning takes back when it has to: a name that ends with a colon
stays. -/
def HasNoDrive (names : List String) : Prop :=
  ∀ name ∈ names, name.toList.getLast? ≠ some ':'

instance (names : List String) : Decidable (HasNoDrive names) :=
  inferInstanceAs (Decidable (∀ name ∈ names, _))

/-! ## The walk along a path's text -/

private theorem start_eq_origin
    {text : String} (plain : '\\' ∉ text.toList) (files : FileSystem) :
    start files.current text = files.origin (Path.anchorOf text) := by
  unfold start origin
  by_cases rooted : text.toList.head? = some '/'
  · have anchored : Path.anchorOf text ≠ .relative := by
      intro relative
      have first := (Path.anchorOf_eq_relative_iff text).mp relative '/' rooted
      cases first
    rw [if_pos rooted, if_neg anchored]
  · have relative : Path.anchorOf text = .relative := by
      apply (Path.anchorOf_eq_relative_iff text).mpr
      intro c first
      have notBackslash : c ≠ '\\' :=
        fun same => plain (same ▸ List.mem_of_head? first)
      have notSlash : c ≠ '/' := fun same => rooted (same ▸ first)
      simp [isSeparator, notBackslash, notSlash]
    rw [if_neg rooted, if_pos relative]

@[simp]
theorem start_text (path : Path) (files : FileSystem) :
    start files.current path.text = files.origin path.anchor := by
  rw [start_eq_origin (Path.backslash_not_mem_text path), Path.anchorOf_text]

theorem exists_children_of_walk
    {links : Nat} {place target : Place} {step : String} {rest : List String}
    (walked : files.walk links place (step :: rest) = .ok target) :
    ∃ children, files.at? place = some (.directory children) := by
  rw [walk] at walked
  cases inside : files.at? place with
  | none =>
      rw [inside] at walked
      cases walked
  | some entry =>
      rw [inside] at walked
      cases entry with
      | directory children => exact ⟨children, rfl⟩
      | file content => cases walked
      | link target => cases walked
      | device => cases walked

/-- Steps that stand still do so in any directory. -/
theorem walk_still
    {links : Nat} {place : Place} {children : List (String × Entry)}
    (inside : files.at? place = some (.directory children))
    {step : String}
    (still : step = "" ∨ step = ".")
    (rest : List String) :
    files.walk links place (step :: rest) = files.walk links place rest := by
  rw [walk, inside]
  exact if_pos still

private theorem walk_still_append
    {links : Nat} {place : Place} {children : List (String × Entry)}
    (inside : files.at? place = some (.directory children))
    (rest : List String) :
    ∀ {still : List String}, (∀ step ∈ still, step = "" ∨ step = ".") →
      files.walk links place (still ++ rest) = files.walk links place rest
  | [], _ => rfl
  | step :: others, all => by
      rw [List.cons_append,
        walk_still inside (all step (List.mem_cons_self ..))]
      exact walk_still_append inside rest fun other member =>
        all other (List.mem_cons_of_mem _ member)

/-- A path's text is walked as its names are, from the root or from the current
directory. -/
theorem walk_steps_text
    (path : Path) {children : List (String × Entry)}
    (inside :
      files.at? (files.origin path.anchor) = some (.directory children))
    (links : Nat) :
    files.walk links (start files.current path.text) (steps path.text) =
      files.walk links (files.origin path.anchor) path.trail.reverse := by
  obtain ⟨still, whole, all⟩ := Path.exists_pieces_text path
  rw [start_text, ← pieces_eq_steps (Path.backslash_not_mem_text path), whole,
    walk_still_append inside _ all]

theorem leads_of_walk
    {text : String}
    (way : List String)
    (here : Place)
    {place : Place}
    (split : steps text = way)
    (starts : start files.current text = here)
    (walked : files.walk linkLimit here way = .ok place) :
    files.Leads text place := by
  rw [Leads, split, starts, walked]

theorem leads_text_iff (path : Path) (place : Place) :
    files.Leads path.text place ↔
      (∃ children,
        files.at? (files.origin path.anchor) = some (.directory children)) ∧
        files.walk linkLimit (files.origin path.anchor) path.trail.reverse =
          .ok place := by
  constructor
  · intro walked
    have start :
        ∃ children,
          files.at? (files.origin path.anchor) =
            some (.directory children) := by
      rw [Leads, start_text,
        ← pieces_eq_steps (Path.backslash_not_mem_text path)] at walked
      cases steps : Path.pieces path.text with
      | nil => exact absurd steps (Path.pieces_ne_nil _)
      | cons first rest =>
          rw [steps] at walked
          exact exists_children_of_walk walked
    obtain ⟨children, inside⟩ := start
    rw [Leads, walk_steps_text path inside] at walked
    exact ⟨⟨children, inside⟩, walked⟩
  · rintro ⟨⟨children, inside⟩, walked⟩
    rw [Leads, walk_steps_text path inside, walked]

/-! ## Cleaning step by step -/

/-- Cleaning one more piece leads where walking it leads. -/
theorem walk_step
    (real : files.HasNoLinks)
    {links : Nat}
    {anchor : Anchor}
    {trail : List String}
    {piece : String}
    {origin here there : Place}
    (all : IsTrail anchor trail)
    (noDrive : HasNoDrive trail)
    (top : anchor ≠ .relative → origin = [])
    (reached : files.walk links origin trail.reverse = .ok here)
    (further : files.walk links here [piece] = .ok there) :
    files.walk links origin (Path.step anchor trail piece).reverse =
      .ok there := by
  have entered :
      files.walk links origin (piece :: trail).reverse = .ok there := by
    rw [List.reverse_cons, walk_append_eq_ok_iff real]
    exact ⟨here, reached, further⟩
  obtain ⟨_, stays | climbs | enters⟩ := walk_step_cases real further
  · obtain ⟨still, same⟩ := stays
    have stays : Path.step anchor trail piece = trail := if_pos still
    rw [stays, same]
    exact reached
  · obtain ⟨dots, above⟩ := climbs
    subst dots
    cases trail with
    | nil =>
        by_cases relative : anchor = .relative
        · have up : Path.step anchor [] ".." = [".."] := by
            simp [Path.step, relative]
          rw [up]
          exact entered
        · have stays : Path.step anchor [] ".." = [] := by
            simp [Path.step, relative]
          rw [List.reverse_nil, walk_nil] at reached
          have atTop : here = [] :=
            (Except.ok.inj reached).symm.trans (top relative)
          rw [stays, List.reverse_nil, walk_nil, above, atTop, top relative]
          rfl
    | cons last before =>
        have takenBack : last.toList.getLast? ≠ some ':' :=
          noDrive last (List.mem_cons_self ..)
        by_cases again : last = ".."
        · have up :
              Path.step anchor (last :: before) ".." =
                ".." :: last :: before := by
            simp [Path.step, again]
          rw [up]
          exact entered
        · have back : Path.step anchor (last :: before) ".." = before := by
            simp [Path.step, takenBack, again]
          rw [List.reverse_cons, walk_append_eq_ok_iff real] at reached
          obtain ⟨middle, toMiddle, toHere⟩ := reached
          have parent : here.tail = middle := by
            obtain ⟨_, stays | climbs | enters⟩ := walk_step_cases real toHere
            · obtain ⟨still, _⟩ := stays
              exact absurd still (not_or.mpr ⟨all.1.1, all.1.2.1⟩)
            · exact absurd climbs.1 again
            · rw [enters.2.1]
              rfl
          rw [back, above, parent]
          exact toMiddle
  · obtain ⟨⟨nonempty, notDot, notDots⟩, _⟩ := enters
    have named : Path.step anchor trail piece = piece :: trail := by
      simp [Path.step, nonempty, notDot, notDots]
    rw [named]
    exact entered

private theorem HasNoDrive.step
    {anchor : Anchor}
    {trail : List String}
    {piece : String}
    (noDrive : HasNoDrive trail)
    (plain : piece.toList.getLast? ≠ some ':') :
    HasNoDrive (Path.step anchor trail piece) := by
  intro name member
  rcases Path.mem_step member with inTrail | here
  · exact noDrive name inTrail
  · exact here ▸ plain

/-- Cleaning a whole text leads where walking its steps leads. -/
theorem walk_foldl_step
    (real : files.HasNoLinks) {links : Nat} {anchor : Anchor} {origin : Place}
    (top : anchor ≠ .relative → origin = []) :
    ∀ {pieces trail : List String} {here there : Place},
      IsTrail anchor trail → HasNoDrive trail → HasNoDrive pieces →
        (∀ piece ∈ pieces, ∀ c ∈ piece.toList, isSeparator c = false) →
        files.walk links origin trail.reverse = .ok here →
        files.walk links here pieces = .ok there →
        files.walk links origin
            (pieces.foldl (Path.step anchor) trail).reverse = .ok there
  | [], trail, here, there, _, _, _, _, reached, further => by
      rw [walk_nil] at further
      rw [List.foldl_nil, reached, further]
  | piece :: rest, trail, here, there, all, noDrive, plain, unseparated,
  reached, further => by
      obtain ⟨piecePlain, restPlain⟩ := List.forall_mem_cons.mp plain
      obtain ⟨pieceUnseparated, restUnseparated⟩ :=
        List.forall_mem_cons.mp unseparated
      have split : files.walk links here ([piece] ++ rest) = .ok there :=
        further
      obtain ⟨next, toNext, onwards⟩ :=
        (walk_append_eq_ok_iff real links _ _ _ _).mp split
      have stepped := walk_step real all noDrive top reached toNext
      rw [List.foldl_cons]
      exact walk_foldl_step real top (Path.isTrail_step all pieceUnseparated)
        (noDrive.step piecePlain) restPlain restUnseparated stepped onwards

private theorem origin_of_rooted
    {anchor : Anchor} (rooted : anchor ≠ .relative) (files : FileSystem) :
    files.origin anchor = [] :=
  if_neg rooted

private theorem leads_text_ofText
    (real : files.HasNoLinks)
    {text : String}
    {place : Place}
    (plain : '\\' ∉ text.toList)
    (noDrive : HasNoDrive (steps text)) (reached : files.Leads text place) :
    files.Leads (Path.ofText text).text place := by
  unfold Leads at reached
  rw [start_eq_origin plain, ← pieces_eq_steps plain] at reached
  rw [← pieces_eq_steps plain] at noDrive
  have start :
      ∃ children,
        files.at? (files.origin (Path.anchorOf text)) =
          some (.directory children) := by
    cases pieces : Path.pieces text with
    | nil => exact absurd pieces (Path.pieces_ne_nil text)
    | cons first rest =>
        rw [pieces] at reached
        exact exists_children_of_walk reached
  have nothing : IsTrail (Path.anchorOf text) [] := trivial
  have none : HasNoDrive [] := fun name member => absurd member List.not_mem_nil
  have top :
      Path.anchorOf text ≠ .relative → files.origin (Path.anchorOf text) = [] :=
    fun rooted => origin_of_rooted rooted files
  exact (leads_text_iff _ _).mpr
    ⟨start,
      walk_foldl_step real top nothing none noDrive
        (fun _ => Path.unseparated_of_mem_pieces) (walk_nil _ _) reached⟩

theorem leads_text_join
    (real : files.HasNoLinks)
    {path : Path}
    {segment : String}
    {directory place : Place}
    (plain : '\\' ∉ segment.toList)
    (noDrive : HasNoDrive path.trail)
    (noDriveBehind : HasNoDrive (steps segment))
    (reached : files.Leads path.text directory)
    (further : files.walk linkLimit directory (steps segment) = .ok place) :
    files.Leads (path.join segment).text place := by
  obtain ⟨start, toDirectory⟩ := (leads_text_iff _ _).mp reached
  rw [← pieces_eq_steps plain] at noDriveBehind further
  have top : path.anchor ≠ .relative → files.origin path.anchor = [] :=
    fun rooted => origin_of_rooted rooted files
  exact (leads_text_iff _ _).mpr
    ⟨start,
      walk_foldl_step real top path.isTrail noDrive noDriveBehind
        (fun _ => Path.unseparated_of_mem_pieces) toDirectory further⟩

/-! ## Looking up -/

theorem locate_of_short
    {text : String}
    (noNul : '\x00' ∉ text.toList)
    (nonempty : text ≠ "")
    (short : text.utf8ByteSize < pathLimit) :
    files.locate text =
      files.walk linkLimit (start files.current text) (steps text) := by
  have allowed : ¬text.toList.contains '\x00' = true := by simpa using noNul
  rw [locate, if_neg allowed, if_neg nonempty, if_neg (Nat.not_le.mpr short)]

theorem locate_eq_ok_iff {text : String} {place : Place} :
    files.locate text = .ok place ↔
      '\x00' ∉ text.toList ∧ text ≠ "" ∧ text.utf8ByteSize < pathLimit ∧
        files.Leads text place := by
  unfold locate Leads
  by_cases nul : '\x00' ∈ text.toList
  · simp [nul]
  · by_cases empty : text = ""
    · simp [empty]
    · by_cases long : pathLimit ≤ text.utf8ByteSize
      · simp [nul, empty, long, Nat.not_lt.mpr long]
      · simp [nul, empty, long, Nat.not_le.mp long]

/-- Without links and without names that end with a colon, cleaning changes
neither where a text leads nor where a text leads from the directory of a path.
A text that can be looked up can still be looked up when it is cleaned, and so
can a joined one that is not too long. -/
theorem cleaning_keeps_place
    (real : files.HasNoLinks) :
    (∀ (text : String) (place : Place),
      '\\' ∉ text.toList → HasNoDrive (steps text) →
        (files.Leads text place → files.Leads (Path.ofText text).text place) ∧
          (files.locate text = .ok place →
            files.locate (Path.ofText text).text = .ok place)) ∧
    (∀ (path : Path) (segment : String) (directory place : Place),
      '\\' ∉ segment.toList → HasNoDrive path.trail →
        HasNoDrive (steps segment) → files.Leads path.text directory →
        files.walk linkLimit directory (steps segment) = .ok place →
        files.Leads (path.join segment).text place ∧
          (files.locate path.text = .ok directory → '\x00' ∉ segment.toList →
            (path.join segment).text.utf8ByteSize < pathLimit →
            files.locate (path.join segment).text = .ok place)) := by
  constructor
  · intro text place plain noDrive
    refine ⟨leads_text_ofText real plain noDrive, fun located => ?_⟩
    obtain ⟨noNul, nonempty, short, reached⟩ := locate_eq_ok_iff.mp located
    have cleaned := leads_text_ofText real plain noDrive reached
    have shorter := Path.utf8ByteSize_text_ofText nonempty
    have cleanedNoNul : '\x00' ∉ (Path.ofText text).text.toList := by
      intro nul
      rcases Path.mem_text_ofText nul with slash | dot | inText
      · cases slash
      · cases dot
      · exact noNul inText
    exact locate_eq_ok_iff.mpr
      ⟨cleanedNoNul, Path.text_ne_empty _, by omega, cleaned⟩
  · intro path segment directory place plain noDrive noDriveBehind reached
      further
    have joined :=
      leads_text_join real plain noDrive noDriveBehind reached further
    refine ⟨joined, fun located noNulBehind short => ?_⟩
    obtain ⟨noNul, _⟩ := locate_eq_ok_iff.mp located
    have joinedNoNul : '\x00' ∉ (path.join segment).text.toList := by
      intro nul
      rcases Path.mem_text_join nul with slash | dot | inPath | inSegment
      · cases slash
      · cases dot
      · exact noNul inPath
      · exact noNulBehind inSegment
    exact
      locate_eq_ok_iff.mpr ⟨joinedNoNul, Path.text_ne_empty _, short, joined⟩

/-- The current directory `/conf` holds a directory `sub` and a file `main`. -/
def confRoom : FileSystem :=
  ⟨[("conf",
      .directory [("sub", .directory []), ("main", .file ByteArray.empty)])],
    ["conf"]⟩

theorem cleaning_keeps_place_confRoom :
    confRoom.HasNoLinks ∧
      confRoom.locate "sub/./../main" = .ok ["main", "conf"] ∧
      confRoom.locate (Path.ofText "sub/./../main").text =
        .ok ["main", "conf"] ∧
      confRoom.Leads (Path.ofText "sub").text ["sub", "conf"] ∧
      confRoom.walk linkLimit ["sub", "conf"] (steps "../../../conf") =
        .ok ["conf"] ∧
      confRoom.locate ((Path.ofText "sub").join "../../../conf").text =
        .ok ["conf"] := by
  have real : confRoom.HasNoLinks := by decide
  have walked : confRoom.Leads "sub/./../main" ["main", "conf"] :=
    leads_of_walk ["sub", ".", "..", "main"] ["conf"] (by decide) (by decide)
      (walk_of_walkWithin 4 rfl)
  have reached : confRoom.Leads (Path.ofText "sub").text ["sub", "conf"] :=
    leads_of_walk ["sub"] ["conf"] (by decide) (by decide)
      (walk_of_walkWithin 1 rfl)
  have further :
      confRoom.walk linkLimit ["sub", "conf"] (steps "../../../conf") =
        .ok ["conf"] := by
    have split : steps "../../../conf" = ["..", "..", "..", "conf"] := by decide
    rw [split]
    exact walk_of_walkWithin 4 rfl
  have located : confRoom.locate "sub/./../main" = .ok ["main", "conf"] :=
    locate_eq_ok_iff.mpr ⟨by decide, by decide, by decide, walked⟩
  have directory :
      confRoom.locate (Path.ofText "sub").text = .ok ["sub", "conf"] :=
    locate_eq_ok_iff.mpr ⟨by decide, by decide, by decide, reached⟩
  obtain ⟨ofTexts, ofJoins⟩ := cleaning_keeps_place real
  obtain ⟨_, cleaned⟩ :=
    ofTexts "sub/./../main" ["main", "conf"] (by decide) (by decide)
  obtain ⟨_, joined⟩ :=
    ofJoins (Path.ofText "sub") "../../../conf" ["sub", "conf"] ["conf"]
      (by decide) (by decide) (by decide) reached further
  exact ⟨real, located, cleaned located, reached, further,
    joined directory (by decide) (by decide)⟩

end FileSystem

end ConfigTree
