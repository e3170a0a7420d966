import ConfigTree.Proofs.Document.Faults
import ConfigTree.Proofs.FileSystem.Places
import ConfigTree.Proofs.Path.Parts

/-!
# Putting includes in

Loading a YAML file puts in what its includes mean, comes to an end and finds
the cycles (`load_substitutes_includes`). The files that are meant are seen from
the directory of the including file, unless a name is taken for a drive, which
may happen to one that only looks so once it is cleaned
(`load_of_drive_elsewhere`).
-/

namespace ConfigTree

/-! ## The files that names mean -/

namespace Document

/-- The path of a name as seen from a directory. A name from the root on means
the same everywhere. -/
def seenFrom (directory : Path) (name : String) : Path :=
  if (Path.ofText name).anchor = .relative then
    directory.join name
  else
    Path.ofText name

/-- A name that is not from the root on and starts with a drive once it is
cleaned. -/
def IsDrive (name : String) : Prop :=
  (Path.ofText name).anchor = .relative ∧
    Path.startsWithDrive (Path.ofText name).text = true

instance (name : String) : Decidable (IsDrive name) :=
  inferInstanceAs (Decidable (_ ∧ _))

theorem includePath_of_not_absolute
    {name : String}
    (relative : ¬ (Path.ofText name).isAbsolute = true)
    (file : Path) :
    includePath file name = file.folder.join name :=
  if_neg relative

theorem not_isAbsolute_of_not_isDrive
    {name : String}
    (relative : (Path.ofText name).anchor = .relative)
    (plain : ¬ IsDrive name) :
    ¬ (Path.ofText name).isAbsolute = true := by
  rw [Path.isAbsolute_iff]
  intro either
  rcases either with rooted | drive
  · exact rooted relative
  · exact plain ⟨relative, drive⟩

theorem includePath_eq_seenFrom
    {file directory : Path}
    {name : String}
    (above : file.parent? = some directory)
    (plain : ¬ IsDrive name) :
    includePath file name = seenFrom directory name := by
  unfold includePath seenFrom
  by_cases relative : (Path.ofText name).anchor = .relative
  · have notAbsolute := not_isAbsolute_of_not_isDrive relative plain
    simp only [if_neg notAbsolute, if_pos relative, above, Option.getD_some]
  · have absolute : (Path.ofText name).isAbsolute = true :=
      Path.isAbsolute_iff.mpr (Or.inl relative)
    simp only [if_pos absolute, if_neg relative]

/-- A file on a rooted path means something else than what its directory holds
exactly by the names of drives. -/
theorem includePath_eq_seenFrom_iff
    {file directory : Path}
    {name : String}
    (above : file.parent? = some directory)
    (rooted : directory.anchor ≠ .relative) :
    includePath file name = seenFrom directory name ↔ ¬ IsDrive name := by
  constructor
  · intro same drive
    have absolute : (Path.ofText name).isAbsolute = true :=
      Path.isAbsolute_iff.mpr (Or.inr drive.2)
    have here : includePath file name = Path.ofText name := if_pos absolute
    have there : seenFrom directory name = directory.join name := if_pos drive.1
    have anchors : (Path.ofText name).anchor = directory.anchor := by
      rw [← here, same, there]
      rfl
    exact rooted (anchors.symm.trans drive.1)
  · exact includePath_eq_seenFrom above

private theorem rooted_seenFrom
    {directory : Path} (rooted : directory.anchor ≠ .relative) (name : String) :
    (seenFrom directory name).anchor ≠ .relative := by
  unfold seenFrom
  by_cases relative : (Path.ofText name).anchor = .relative
  · rw [if_pos relative]
    exact rooted
  · rw [if_neg relative]
    exact relative

end Document

namespace FileSystem

variable {files : FileSystem}

private theorem trail_ne_nil_of_readDocument
    {path : Path} {document : Document} (rooted : path.anchor ≠ .relative)
    (read : files.readDocument path = .ok document) : path.trail ≠ [] := by
  intro empty
  have root : path = Path.ofAnchor path.anchor := Path.eq_of_parts rfl empty
  have unreadable :
      files.readText (Path.ofAnchor path.anchor).text = .error .isDirectory :=
    readText_ofAnchor rooted
  rw [← root] at unreadable
  rw [readDocument, unreadable] at read
  cases read

/-- Seen from a rooted path, includes are seen from the directory of their file
as long as no name is a drive's. -/
theorem includePath_of_rooted
    {file : Path}
    {name : String}
    (rooted : file.anchor ≠ .relative)
    (names : files.Names file name)
    (plain : ¬ Document.IsDrive name) :
    ∃ directory, file.parent? = some directory ∧ directory.anchor ≠ .relative ∧
      Document.includePath file name = Document.seenFrom directory name := by
  obtain ⟨value, read, _⟩ := names
  obtain ⟨directory, above⟩ :=
    Path.exists_parent rooted (trail_ne_nil_of_readDocument rooted read)
  exact ⟨directory, above, Path.rooted_of_parent above rooted,
    Document.includePath_eq_seenFrom above plain⟩

private theorem rooted_of_includes
    {path : Path} (rooted : path.anchor ≠ .relative)
    (driveless :
      ∀ file name,
        Relation.ReflTransGen files.Includes path file → files.Names file name →
          ¬ Document.IsDrive name)
    {file : Path} (leads : Relation.ReflTransGen files.Includes path file) :
    file.anchor ≠ .relative := by
  induction leads with
  | refl => exact rooted
  | tail before step inductionHypothesis =>
      obtain ⟨name, names, rfl⟩ := step
      obtain ⟨directory, _, above, same⟩ :=
        includePath_of_rooted inductionHypothesis names
          (driveless _ name before names)
      rw [same]
      exact Document.rooted_seenFrom above name

/-! ## Loading a file -/

theorem leadTo_nil (file : Path) : files.LeadTo [] file :=
  fun _ member => absurd member List.not_mem_nil

private theorem exists_yaml_of_readDocument
    {path : Path}
    {document : Document}
    (format : Format.ofPath? path = some .yaml)
    (read : files.readDocument path = .ok document) :
    ∃ value, document = .yaml value := by
  unfold readDocument at read
  rw [format] at read
  split at read
  · cases read
  · rename_i content _
    cases parsed : Yaml.Value.ofText? content with
    | none => simp [Document.ofText?, parsed] at read
    | some value =>
        simp only [Document.ofText?, parsed, Option.map_some, Except.ok.injEq]
          at read
        exact ⟨value, read.symm⟩

/-- What a YAML document is loaded with is what its file stands for. -/
theorem load_of_yaml
    {path : Path}
    {value : Yaml.Value}
    (read : files.readDocument path = .ok (.yaml value))
    {document : Document} :
    files.load path = .ok document ↔
      ∃ result, document = .yaml result ∧ files.Stands path result := by
  have yaml :
      ∀ {other : Document},
        files.load path = .ok other → ∃ result, other = .yaml result := by
    intro other loaded
    unfold load at loaded
    rw [loadWithin_of_yaml read] at loaded
    cases whole : Document.substitute (files.included [] path) value with
    | error fault =>
        rw [whole] at loaded
        cases loaded
    | ok result =>
        rw [whole] at loaded
        exact ⟨result, (Except.ok.inj loaded).symm⟩
  constructor
  · intro loaded
    obtain ⟨result, rfl⟩ := yaml loaded
    exact ⟨result, rfl, stands_of_loadWithin List.not_mem_nil loaded⟩
  · intro given
    obtain ⟨result, rfl, stands⟩ := given
    obtain ⟨other, loaded, same⟩ :=
      loadWithin_of_stands stands List.not_mem_nil (leadTo_nil path)
    obtain ⟨own, rfl⟩ := yaml loaded
    cases same
    exact loaded

theorem load_of_not_yaml
    {path : Path}
    (other : ∀ value, files.readDocument path ≠ .ok (.yaml value)) :
    files.load path = files.readDocument path :=
  loadWithin_of_not_yaml other List.not_mem_nil

/-- A YAML file is loaded exactly with the value that it stands for. -/
theorem load_eq_ok_iff
    {path : Path}
    (format : Format.ofPath? path = some .yaml)
    {document : Document} :
    files.load path = .ok document ↔
      ∃ value, document = .yaml value ∧ files.Stands path value := by
  by_cases other : ∀ value, files.readDocument path ≠ .ok (.yaml value)
  · have unread : ∀ found, files.readDocument path ≠ .ok found := by
      intro found read
      obtain ⟨value, rfl⟩ := exists_yaml_of_readDocument format read
      exact other value read
    rw [load_of_not_yaml other]
    constructor
    · intro read
      exact absurd read (unread document)
    · intro given
      obtain ⟨value, _, stands⟩ := given
      cases stands with
      | expanded _ read _ _ => exact absurd read (unread _)
      | converted read _ => exact absurd read (unread _)
  · obtain ⟨value, read⟩ :
        ∃ value, files.readDocument path = .ok (.yaml value) := by
      simpa using other
    exact load_of_yaml read

/-- A value that includes nothing stands for itself. -/
theorem stands_of_no_includes
    {path : Path}
    {value : Yaml.Value}
    (read : files.readDocument path = .ok (.yaml value))
    (nothing : Document.includes value = []) : files.Stands path value := by
  have stands := Stands.expanded id read (by simp [nothing]) (by simp [nothing])
  rwa [Document.fill_of_no_includes value nothing] at stands

/-- Loading a YAML file from a rooted path comes to an end; names are seen from
the directory of the file that includes them, as the name of a drive would not
be; what is loaded is what the file stands for, which includes nothing any more
and is the value itself if that includes nothing; and loading fails with a cycle
exactly when, before any other failure, it comes to an include of a file that is
being put together. -/
theorem load_substitutes_includes
    {path : Path}
    (rooted : path.anchor ≠ .relative)
    (format : Format.ofPath? path = some .yaml)
    (driveless :
      ∀ file name,
        Relation.ReflTransGen files.Includes path file → files.Names file name →
          ¬ Document.IsDrive name) :
    files.IncludesEnd [] path ∧
    (∀ file name,
      Relation.ReflTransGen files.Includes path file → files.Names file name →
        ∃ directory,
          file.parent? = some directory ∧
          Document.includePath file name = Document.seenFrom directory name) ∧
    (∀ file directory name,
      file.parent? = some directory → directory.anchor ≠ .relative →
        (Document.includePath file name = Document.seenFrom directory name ↔
          ¬ Document.IsDrive name)) ∧
    (∀ document,
      files.load path = .ok document ↔
        ∃ value, document = .yaml value ∧ files.Stands path value) ∧
    (∀ value, files.Stands path value →
      Document.includes value = [] ∧
        ∀ other, files.Stands path other → other = value) ∧
    (∀ value,
      files.readDocument path = .ok (.yaml value) →
        Document.includes value = [] → files.load path = .ok (.yaml value)) ∧
    (∀ including file content,
      files.ComesTo [] path including file content → (file :: including).Nodup)
      ∧
    ∀ target, files.load path = .error (.includeCycle target) ↔
      ∃ including file name,
        files.ComesTo [] path including file (.string name) ∧
        Document.includePath file name = target ∧
        target ∈ file :: including := by
  refine ⟨includesEnd files [] path List.not_mem_nil, ?_, ?_, ?_, ?_, ?_, ?_,
    ?_⟩
  · intro file name leads names
    obtain ⟨directory, above, _, same⟩ :=
      includePath_of_rooted (rooted_of_includes rooted driveless leads) names
        (driveless file name leads names)
    exact ⟨directory, above, same⟩
  · intro file directory name above rooted
    exact Document.includePath_eq_seenFrom_iff above rooted
  · intro document
    exact load_eq_ok_iff format
  · intro value stands
    exact ⟨stands.no_includes, fun other again => again.unique stands⟩
  · intro value read nothing
    exact (load_eq_ok_iff format).mpr
      ⟨value, rfl, stands_of_no_includes read nothing⟩
  · intro including file content comes
    exact nodup_of_comesTo comes (by simp)
  · intro target
    exact loadWithin_eq_includeCycle_iff List.not_mem_nil (leadTo_nil path)

/-! ## Two files and a third one -/

theorem readDocument_of_format
    {path : Path} {text : String} {format : Format} {document : Document}
    (read : files.readText path.text = .ok text)
    (known : Format.ofPath? path = some format)
    (parsed : Document.ofText? format text = some document) :
    files.readDocument path = .ok document := by
  rw [readDocument, read]
  dsimp only
  rw [known]
  dsimp only
  rw [parsed]

theorem readDocument_of_no_format
    {path : Path}
    {text : String}
    (read : files.readText path.text = .ok text)
    (unknown : Format.ofPath? path = none) :
    files.readDocument path = .ok (.text text) := by
  rw [readDocument, read]
  dsimp only
  rw [unknown]

theorem ofText?_include
    {text name : String}
    (tokens : Yaml.tokens? text =
      some [.tag "!" "include", .scalar .plain name, .streamEnd])
    (plain : Yaml.Value.ofPlain name = some (.string name)) :
    Yaml.Value.ofText? text =
      some (.tagged Document.includeTag (.string name)) := by
  have node : Yaml.Markup.ofText? text =
      some (some (.scalar none (some "!include") .plain name)) := by
    rw [Yaml.Markup.ofText?, tokens]
    rfl
  have own := Document.ownTag?_eq_includeTag_iff.mpr (Or.inl rfl)
  exact Yaml.Value.ofText?_of_compose node (Yaml.Value.compose_tagged own plain)

/-- In `/d` there are a text `t` and `m.yaml`, which includes `n.yaml` from the
directory `sub`, which includes `t`. The two ways to write the tag are both
used. -/
def stacked : FileSystem :=
  ⟨[("d", .directory [("m.yaml", .file "top: !include sub/n.yaml".toUTF8),
      ("sub", .directory [("n.yaml", .file "!<!!include> ../t".toUTF8)]),
      ("t", .file "x".toUTF8)])], []⟩

private theorem readMain_stacked :
    stacked.readDocument (Path.ofText "/d/m.yaml") =
      .ok (.yaml (.mapping [(.string "top",
        .tagged Document.includeTag (.string "sub/n.yaml"))])) := by
  have content : stacked.readText (Path.ofText "/d/m.yaml").text =
      .ok "top: !include sub/n.yaml" :=
    readText_placeText ["m.yaml", "d"] rfl (by decide)
  have tokens : Yaml.tokens? "top: !include sub/n.yaml" =
      some [.blockMapping, .key, .scalar .plain "top", .value,
        .tag "!" "include", .scalar .plain "sub/n.yaml", .blockEnd,
        .streamEnd] := by decide +kernel
  have node : Yaml.Markup.ofText? "top: !include sub/n.yaml" =
      some (some (.mapping none none [(.scalar none none .plain "top",
        .scalar none (some "!include") .plain "sub/n.yaml")])) := by
    rw [Yaml.Markup.ofText?, tokens]
    rfl
  have entry := @Yaml.Value.compose_mapping_map Unit 127
    (fun _ => .scalar none none .plain "top")
    (fun _ => .scalar none (some "!include") .plain "sub/n.yaml")
    (fun _ => "top")
    (fun _ => .tagged Document.includeTag (.string "sub/n.yaml")) [()]
    (fun _ _ => Yaml.Value.compose_string rfl)
    (fun _ _ => Yaml.Value.compose_tagged (by decide) rfl) (by simp)
  refine readDocument_of_format content rfl ?_
  rw [Document.ofText?, Yaml.Value.ofText?_of_compose node entry]
  rfl

private theorem readSub_stacked :
    stacked.readDocument (Path.ofText "/d/sub/n.yaml") =
      .ok (.yaml (.tagged Document.includeTag (.string "../t"))) := by
  have content : stacked.readText (Path.ofText "/d/sub/n.yaml").text =
      .ok "!<!!include> ../t" :=
    readText_placeText ["n.yaml", "sub", "d"] rfl (by decide)
  have tokens : Yaml.tokens? "!<!!include> ../t" =
      some [.tag "" "!!include", .scalar .plain "../t", .streamEnd] := by
    decide +kernel
  have node : Yaml.Markup.ofText? "!<!!include> ../t" =
      some (some (.scalar none (some "!!include") .plain "../t")) := by
    rw [Yaml.Markup.ofText?, tokens]
    rfl
  have own := Document.ownTag?_eq_includeTag_iff.mpr (Or.inr rfl)
  refine readDocument_of_format content rfl ?_
  rw [Document.ofText?, Yaml.Value.ofText?_of_compose node
    (Yaml.Value.compose_tagged own rfl)]
  rfl

private theorem readText_stacked :
    stacked.readDocument (Path.ofText "/d/t") = .ok (.text "x") :=
  readDocument_of_no_format
    (readText_placeText ["t", "d"] rfl (by decide))
    (by decide)

theorem load_substitutes_includes_stacked :
    let main := Path.ofText "/d/m.yaml"
    main.anchor ≠ .relative ∧ Format.ofPath? main = some .yaml ∧
      (∀ file name,
        Relation.ReflTransGen stacked.Includes main file →
          stacked.Names file name → ¬ Document.IsDrive name) ∧
      stacked.load main =
        .ok (.yaml (.mapping [(.string "top", .string "x")])) := by
  intro main
  have rooted : main.anchor ≠ .relative := by decide
  have format : Format.ofPath? main = some .yaml := rfl
  have toSub : Document.includePath main "sub/n.yaml" =
      Path.ofText "/d/sub/n.yaml" := by decide
  have toText : Document.includePath (Path.ofText "/d/sub/n.yaml") "../t" =
      Path.ofText "/d/t" := by decide
  have namesMain : ∀ name, stacked.Names main name → name = "sub/n.yaml" := by
    intro name names
    rw [names_iff_of_readDocument readMain_stacked] at names
    simpa [Document.includes, Document.includesOfEntries] using names
  have namesSub : ∀ name,
      stacked.Names (Path.ofText "/d/sub/n.yaml") name → name = "../t" := by
    intro name names
    rw [names_iff_of_readDocument readSub_stacked] at names
    simpa [Document.includes] using names
  have namesText :=
    not_names_of_readDocument readText_stacked fun _ => Document.noConfusion
  have reached : ∀ file, Relation.ReflTransGen stacked.Includes main file →
      file = main ∨ file = Path.ofText "/d/sub/n.yaml" ∨
        file = Path.ofText "/d/t" := by
    intro file leads
    induction leads with
    | refl => exact Or.inl rfl
    | tail _ step inductionHypothesis =>
        obtain ⟨name, names, rfl⟩ := step
        rcases inductionHypothesis with rfl | rfl | rfl
        · rw [namesMain name names, toSub]
          exact Or.inr (Or.inl rfl)
        · rw [namesSub name names, toText]
          exact Or.inr (Or.inr rfl)
        · exact absurd names (namesText name)
  have driveless : ∀ file name,
      Relation.ReflTransGen stacked.Includes main file →
        stacked.Names file name → ¬ Document.IsDrive name := by
    intro file name leads names
    rcases reached file leads with rfl | rfl | rfl
    · rw [namesMain name names]
      decide
    · rw [namesSub name names]
      decide
    · exact absurd names (namesText name)
  have loading := (load_substitutes_includes rooted format driveless).2.2.2.1
  have textStands : stacked.Stands (Path.ofText "/d/t") (.string "x") :=
    .converted readText_stacked fun _ => Document.noConfusion
  have subStands :
      stacked.Stands (Path.ofText "/d/sub/n.yaml") (.string "x") := by
    refine .expanded (fun _ => .string "x") readSub_stacked
      (by simp [Document.includes]) ?_
    intro name member
    rw [namesSub name ⟨_, readSub_stacked, member⟩, toText]
    exact textStands
  refine ⟨rooted, format, driveless, (loading _).mpr ⟨_, rfl, ?_⟩⟩
  refine .expanded (fun _ => .string "x") readMain_stacked
    (by simp [Document.includes, Document.includesOfEntries]) ?_
  intro name member
  rw [namesMain name ⟨_, readMain_stacked, member⟩, toSub]
  exact subStands

/-- The directory `/d` holds `m.yaml`, which includes `./a:b`, and an `x` in the
file `a:b`. The file `a:b` in the root, from where relative paths start, holds a
`y`. -/
def twoDrives : FileSystem :=
  ⟨[("d", .directory [("m.yaml", .file "!include ./a:b".toUTF8),
      ("a:b", .file "x".toUTF8)]),
    ("a:b", .file "y".toUTF8)], []⟩

/-- The second byte of a name may be no colon, and still the file that is put in
is not the one in the directory of the file that includes it. -/
theorem load_of_drive_elsewhere :
    twoDrives.readDocument (Path.ofText "/d/m.yaml") =
        .ok (.yaml (.tagged Document.includeTag (.string "./a:b"))) ∧
      "./a:b".toUTF8[1]? ≠ some ':'.toUInt8 ∧
      twoDrives.readDocument ((Path.ofText "/d").join "./a:b") =
        .ok (.text "x") ∧
      twoDrives.load (Path.ofText "/d/m.yaml") = .ok (.yaml (.string "y")) := by
  have readMain : twoDrives.readDocument (Path.ofText "/d/m.yaml") =
      .ok (.yaml (.tagged Document.includeTag (.string "./a:b"))) :=
    by
      have content :
          twoDrives.readText (Path.ofText "/d/m.yaml").text =
            .ok "!include ./a:b" :=
        readText_placeText ["m.yaml", "d"] rfl (by decide)
      have parsed : Yaml.Value.ofText? "!include ./a:b" =
          some (.tagged Document.includeTag (.string "./a:b")) :=
        ofText?_include (by decide +kernel) rfl
      refine readDocument_of_format content rfl ?_
      rw [Document.ofText?, parsed]
      rfl
  have readNear :
      twoDrives.readDocument ((Path.ofText "/d").join "./a:b") =
        .ok (.text "x") :=
    readDocument_of_no_format
      (readText_placeText ["a:b", "d"] rfl (by decide))
      (by decide)
  have located : twoDrives.locate "a:b" = .ok ["a:b"] := by
    have way : steps "a:b" = ["a:b"] := by decide
    rw [locate, if_neg (by decide), if_neg (by decide), if_neg (by decide), way]
    have present : twoDrives.at? ["a:b"] = some (.file "y".toUTF8) := rfl
    exact walk_of_at? rfl linkLimit (by decide) present
  have readElsewhere :
      twoDrives.readDocument (Path.ofText "a:b") = .ok (.text "y") := by
    refine readDocument_of_no_format ?_ (by decide)
    have found : twoDrives.find "a:b" = .ok (.file "y".toUTF8) := by
      rw [find, located]
      rfl
    have text : (Path.ofText "a:b").text = "a:b" := by decide
    rw [text, readText, found]
    dsimp only
    rw [fromUTF8?_toUTF8]
  have format : Format.ofPath? (Path.ofText "/d/m.yaml") = some .yaml := rfl
  have target :
      Document.includePath (Path.ofText "/d/m.yaml") "./a:b" =
        Path.ofText "a:b" := by
    decide
  refine ⟨readMain, by decide, readNear,
    (load_eq_ok_iff format).mpr ⟨_, rfl, ?_⟩⟩
  refine .expanded (fun _ => .string "y") readMain (by simp [Document.includes])
    ?_
  intro name member
  obtain rfl : name = "./a:b" := by simpa [Document.includes] using member
  rw [target]
  exact .converted readElsewhere (fun _ => Document.noConfusion)

end FileSystem

end ConfigTree
