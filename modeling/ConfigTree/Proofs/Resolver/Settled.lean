import ConfigTree.Proofs.Document.Keys
import ConfigTree.Proofs.Node.Parts
import ConfigTree.Proofs.Resolver.Modular

/-!
# What is left in results

A nested run leaves nothing to resolve, neither in the tree that it is given nor
in what it takes from files: no numbered mapping, and no reference but the text
of a file that holds nothing else (`nested_result_is_settled`).
-/

namespace ConfigTree

/-- A text that starts with a slash stands for itself. -/
theorem Reference.classify_of_slash
    {text : String} (slash : text.toList.head? = some '/') :
    classify text = .ok none := by
  unfold classify
  cases chars : text.toList with
  | nil => simp [chars] at slash
  | cons first rest =>
      have isSlash : first = '/' := by simpa [chars] using slash
      subst isSlash
      simp [relativeMark, packageMark]

namespace Setting

variable {setting : Setting} {cache : PackageCache} {resolving : List Path}
  {directory : Path}

/-! ## Strings that open no file -/

/-- What stands at a path and is not resolved in turn: a directory's path, or
what a file holds that is no mapping and no sequence. -/
theorem inspect_eq_ok_false
    {path : Path} {node : Node} (nested : setting.resolveNested = true)
    (found : setting.inspect path = .ok (node, false)) :
    node = .string path.text ∨
      setting.files.kind path.text = .ok .file ∧
        readTarget setting.files path = .ok (node, false) := by
  unfold inspect at found
  simp only [nested, Bool.true_and] at found
  split at found
  next => cases found
  next => cases found
  next =>
    cases found
    exact .inl rfl
  next isFile =>
    split at found
    next => cases found
    next read =>
      cases found
      exact .inr ⟨isFile, read⟩

/-- A string that leads to no path stands for itself or marks a missing
package. -/
theorem result_of_no_target {value : String} {node : Node}
    (leads : targetOf (cache.answer setting.search) directory value = none)
    (ended :
      setting.result cache resolving directory (.string value) = .ok node) :
    (Reference.classify value = .ok none ∧ node = .string value) ∨
      ∃ name, node = .missingPackage name := by
  rw [result_string_eq_ok_iff] at ended
  unfold targetOf at leads
  unfold stringResult stringOutcome at ended
  rcases classified : Reference.classify value with
    reason | (_ | (text | ⟨name, subpath⟩))
  · rw [classified] at ended
    cases ended
  · rw [classified] at ended
    cases ended
    exact .inl ⟨rfl, rfl⟩
  · rw [classified] at leads
    cases leads
  · rw [classified] at leads ended
    have missing : cache.answer setting.search name = none := by
      simpa using leads
    simp only [missing, packageOutcome] at ended
    cases ended
    exact .inr ⟨name, rfl⟩

/-- A string that opens no file and leads to a path stands for what is found
there. -/
theorem inspect_of_target {value : String} {path : Path} {node : Node}
    (closed : ∀ path content, ¬setting.Opens cache directory value path content)
    (leads : targetOf (cache.answer setting.search) directory value = some path)
    (ended :
      setting.result cache resolving directory (.string value) = .ok node) :
    setting.inspect path = .ok (node, false) := by
  rw [result_string_eq_ok_iff, stringResult, stringOutcome_of_target leads,
    followOutcome_eq] at ended
  rcases found : setting.inspect path with fault | ⟨content, _ | _⟩
  · rw [found] at ended
    cases ended
  · rw [found] at ended
    cases ended
    rfl
  · exact absurd (opens_iff.mpr ⟨leads, found⟩) (closed path content)

theorem result_of_inspect {value : String} {path : Path} {node : Node}
    (leads : targetOf (cache.answer setting.search) directory value = some path)
    (found : setting.inspect path = .ok (node, false)) :
    setting.result cache resolving directory (.string value) = .ok node := by
  rw [result_string_eq_ok_iff, stringResult, stringOutcome_of_target leads,
    followOutcome_eq, found]
  rfl

/-! ## Texts of files -/

/-- The text is all that a file holds, and a string that the tree comes to leads
to the file. -/
def IsContent
    (setting : Setting)
    (cache : PackageCache)
    (resolving : List Path)
    (directory : Path)
    (tree : Node)
    (text : String) : Prop :=
  ∃ deeper home value path document,
    setting.Reaches cache resolving directory tree deeper home value ∧
    targetOf (cache.answer setting.search) home value = some path ∧
    setting.files.kind path.text = .ok .file ∧
    setting.files.load path = .ok document ∧ document.isComposite = false ∧
    document.toNode = .ok (.string text)

private theorem IsContent.of_opens
    {tree content : Node}
    {keyPath : KeyPath}
    {value text : String}
    {path : Path}
    (meets : setting.Meets cache resolving directory tree keyPath value)
    (opens : setting.Opens cache directory value path content)
    (fresh : path ∉ resolving)
    (inside :
      setting.IsContent cache (path :: resolving) (homeOf path) content text) :
    setting.IsContent cache resolving directory tree text := by
  obtain ⟨deeper, home, last, target, document, reaches, held⟩ := inside
  exact ⟨deeper, home, last, target, document,
    .inside meets opens fresh reaches, held⟩

private theorem meets_of_mem
    {tree node : Node} {keyPath : KeyPath} {value : String}
    (ended : setting.result cache resolving directory tree = .ok node)
    (member : (keyPath, value) ∈ tree.strings []) :
    setting.Meets cache resolving directory tree keyPath value := by
  have all := result_eq_ok_iff.mp ⟨node, ended⟩
  obtain ⟨before, after, split⟩ := List.append_of_mem member
  refine ⟨before, after, split, ?_⟩
  intro earlier among
  exact all earlier (by simp [split, among])

/-- A string that opens no file leaves nothing to resolve but a text that is all
of a file. -/
theorem settled_of_closed
    {tree node : Node} {keyPath : KeyPath} {value : String}
    (nested : setting.resolveNested = true)
    (rooted : directory.anchor ≠ .relative)
    (packages :
      ∀ name root,
        cache.answer setting.search name = some root →
          (Path.ofText root).anchor ≠ .relative)
    (meets : setting.Meets cache resolving directory tree keyPath value)
    (closed : ∀ path content, ¬setting.Opens cache directory value path content)
    (ended :
      setting.result cache resolving directory (.string value) = .ok node) :
    node.Settled (setting.IsContent cache resolving directory tree) := by
  cases leads : targetOf (cache.answer setting.search) directory value with
  | none =>
      rcases result_of_no_target leads ended with ⟨literal, rfl⟩ | ⟨name, rfl⟩
      · apply Node.settled_of_plain rfl
        rintro _ ⟨rfl⟩ refers
        exact absurd literal refers
      · exact Node.settled_of_plain rfl fun _ same => nomatch same
  | some path =>
      rcases inspect_eq_ok_false nested
          (inspect_of_target closed leads ended) with
        rfl | ⟨isFile, read⟩
      · apply Node.settled_of_plain rfl
        rintro _ ⟨rfl⟩ refers
        have rootedPath := rooted_of_targetOf rooted packages leads
        exact absurd (Reference.classify_of_slash (Path.head?_text rootedPath))
          refers
      · apply Node.settled_of_plain (isComposite_of_readTarget read)
        rintro text rfl _
        obtain ⟨document, loaded, converted, plain⟩ :=
          readTarget_eq_ok_iff.mp read
        exact ⟨resolving, directory, value, path, document, .here meets, leads,
          isFile, loaded, plain, converted⟩

/-! ## Trees -/

/-- A tree that comes out of a nested run is settled, whichever files its parts
come from. The induction is on the way into files, which has an end. -/
theorem settled_of_result
    {tree node : Node} (nested : setting.resolveNested = true)
    (rooted : directory.anchor ≠ .relative)
    (packages :
      ∀ name root,
        cache.answer setting.search name = some root →
          (Path.ofText root).anchor ≠ .relative)
    (unique : tree.HasUniqueKeys)
    (ended : setting.result cache resolving directory tree = .ok node) :
    node.Settled (setting.IsContent cache resolving directory tree) := by
  induction ends setting cache resolving directory tree generalizing node with
  | @intro resolving directory tree _ inductionHypothesis =>
      rw [eq_substitute_of_result ended]
      apply Node.Settled.substitute [] tree unique
      rintro ⟨keyPath, value⟩ member
      have meets := meets_of_mem ended member
      obtain ⟨found, endedString⟩ := result_eq_ok_iff.mp ⟨node, ended⟩ _ member
      rw [meaningIn_eq endedString]
      by_cases closed :
        ∀ path content, ¬setting.Opens cache directory value path content
      · exact settled_of_closed nested rooted packages meets closed endedString
      · obtain ⟨path, content, opens⟩ :
            ∃ path content,
              setting.Opens cache directory value path content := by
          simpa using closed
        obtain ⟨fresh, endedContent⟩ := result_inside_of_opens opens endedString
        obtain ⟨folder, _, above, _, rootedFolder⟩ :=
          exists_parts_of_opens opens
            (rooted_of_targetOf rooted packages opens.leads)
        have rootedHome : (homeOf path).anchor ≠ .relative := by
          rw [homeOf_of_parent above]
          exact rootedFolder
        have uniqueContent := hasUniqueKeys_of_readTarget opens.read
        have inside :=
          inductionHypothesis keyPath value path content member opens fresh
            rootedHome uniqueContent endedContent
        exact inside.imp fun text => IsContent.of_opens meets opens fresh

end Setting

/-- A nested run that comes out leaves nothing to resolve anywhere in its
result, whether it comes from the tree or through any chain of files: no mapping
has the numbers from zero on as its keys, and a string that is no literal is all
that a file holds to which a reference leads, a text or a scalar. -/
theorem nested_result_is_settled
    {files : FileSystem} {base : String} {options : Options} {tree node : Node}
    (rooted : (Path.ofText base).anchor ≠ .relative)
    (nested : options.resolveNested = true)
    (unique : tree.HasUniqueKeys)
    (resolved :
      ((Resolver.ofText base options).resolve files tree).1 = .ok node) :
    node.HasUniqueKeys ∧
    (∀ entries, Node.Occurs (.mapping entries) node →
      ¬IsNumbering (entries.map Prod.fst)) ∧
    ∀ text,
      Node.Occurs (.string text) node → Reference.classify text ≠ .ok none →
        ∃ modules resolving home value path document,
          options.modulesRoot files = .ok modules ∧
          (Setting.nestedIn files modules).Reaches .empty [] (Path.ofText base)
            tree resolving home value ∧
          Setting.targetOf (files.searchModules modules.text) home value =
            some path ∧ files.kind path.text = .ok .file ∧
          files.load path = .ok document ∧ document.isComposite = false ∧
          document.toNode = .ok (.string text) := by
  obtain ⟨modules, found⟩ := Resolver.exists_modulesRoot_of_resolve resolved
  have ended :
      (Setting.nestedIn files modules).result .empty [] (Path.ofText base)
          tree = .ok node := by
    have ran := Resolver.resolve_of_rooted rooted nested found tree
    exact (congrArg Prod.fst ran).symm.trans resolved
  have packages :
      ∀ name root,
        PackageCache.empty.answer (Setting.nestedIn files modules).search name =
          some root → (Path.ofText root).anchor ≠ .relative := by
    intro name root answer
    rw [PackageCache.answer_empty] at answer
    exact FileSystem.rooted_of_searchModules (options.rooted_modulesRoot found)
      answer
  have settled := Setting.settled_of_result rfl rooted packages unique ended
  refine ⟨settled.unique, settled.unnumbered, ?_⟩
  intro text occurs refers
  obtain ⟨resolving, home, value, path, document, held⟩ :=
    settled.strings text occurs refers
  exact ⟨modules, resolving, home, value, path, document, found, held⟩

/-- The file `/d/note` is the text of a reference. -/
def noteFile : FileSystem :=
  ⟨[("d", .directory [("note", .file "./gone".toUTF8)])], []⟩

theorem nested_result_is_settled_noteFile :
    let tree := Node.mapping [("0", .string "./note")]
    (Path.ofText "/d").anchor ≠ .relative ∧ nestedOptions.resolveNested = true ∧
      tree.HasUniqueKeys ∧
      ((Resolver.ofText "/d" nestedOptions).resolve noteFile tree).1 =
        .ok (.sequence [.string "./gone"]) ∧
      Reference.classify "./gone" ≠ .ok none ∧
      ∃ path document,
        noteFile.load path = .ok document ∧ document.isComposite = false ∧
        document.toNode = .ok (.string "./gone") := by
  intro tree
  have rooted : (Path.ofText "/d").anchor ≠ .relative := by decide
  have unique : tree.HasUniqueKeys := by
    simp [tree, Node.HasUniqueKeys, Node.EntriesHaveUniqueKeys]
  have refers : Reference.classify "./gone" ≠ .ok none := by decide
  have present :
      noteFile.find (Path.ofText "/d/note").text =
        .ok (.file "./gone".toUTF8) :=
    FileSystem.find_placeText ["note", "d"] rfl rfl (by decide)
  have held : noteFile.readText (Path.ofText "/d/note").text = .ok "./gone" :=
    FileSystem.readText_placeText ["note", "d"] rfl (by decide)
  have read :
      noteFile.readDocument (Path.ofText "/d/note") = .ok (.text "./gone") :=
    FileSystem.readDocument_of_no_format held rfl
  have loaded :
      noteFile.load (Path.ofText "/d/note") = .ok (.text "./gone") := by
    rw [FileSystem.load_of_not_yaml, read]
    intro value same
    rw [read] at same
    cases same
  obtain ⟨modules, found⟩ :
      ∃ modules, nestedOptions.modulesRoot noteFile = .ok modules :=
    ⟨_, rfl⟩
  have inspected :
      (Setting.nestedIn noteFile modules).inspect (Path.ofText "/d/note") =
        .ok (.string "./gone", false) := by
    rw [Setting.inspect, Setting.files_nestedIn, FileSystem.kind, present,
      Setting.readTarget, loaded]
    rfl
  have leads :
      Setting.targetOf
          (PackageCache.empty.answer (Setting.nestedIn noteFile modules).search)
          (Path.ofText "/d") "./note" = some (Path.ofText "/d/note") := by
    have classified :
        Reference.classify "./note" = .ok (some (.relative "./note")) := by
      decide
    have joined : (Path.ofText "/d").join "./note" = Path.ofText "/d/note" := by
      decide
    rw [Setting.targetOf, classified, ← joined]
  have endedString :
      (Setting.nestedIn noteFile modules).result .empty [] (Path.ofText "/d")
          (.string "./note") = .ok (.string "./gone") :=
    Setting.result_of_inspect leads inspected
  have resolved :
      ((Resolver.ofText "/d" nestedOptions).resolve noteFile tree).1 =
        .ok (.sequence [.string "./gone"]) := by
    have ran := Resolver.resolve_of_rooted rooted rfl found tree
    have all :
        ∀ string ∈ tree.strings [],
          ∃ node,
            (Setting.nestedIn noteFile modules).result .empty []
                (Path.ofText "/d") (.string string.2) = .ok node := by
      intro string member
      obtain rfl := List.mem_singleton.mp member
      exact ⟨_, endedString⟩
    have ended := Setting.result_eq_ok_substitute all
    rw [Node.substitute, Node.substituteEntries, Node.substituteEntries,
      Node.substitute, Setting.meaningIn_eq endedString] at ended
    exact (congrArg Prod.fst ran).trans ended
  obtain ⟨_, _, texts⟩ := nested_result_is_settled rooted rfl unique resolved
  obtain ⟨_, _, _, _, path, document, _, _, _, _, left⟩ :=
    texts "./gone" (.item (List.mem_singleton.mpr rfl) .here) refers
  exact ⟨rooted, rfl, unique, resolved, refers, path, document, left⟩

end ConfigTree
