import ConfigTree.Proofs.FileSystem.Cleaning
import ConfigTree.Proofs.Resolver.Settled

/-!
# Directories in results

A reference to a directory comes out as the directory's path. It starts with a
slash, so that it means the same wherever it is read from, unless the base
directory is taken for a drive (`resolve_names_directories`).
-/

namespace ConfigTree

namespace FileSystem

/-! ## From another directory -/

/-- The same file system with another current directory. -/
def seenIn (files : FileSystem) (current : Place) : FileSystem :=
  { files with current := current }

@[simp]
theorem at?_seenIn
    (files : FileSystem) (current : Place) :
    ∀ place, (files.seenIn current).at? place = files.at? place
  | [] => rfl
  | name :: above => by rw [at?, at?, at?_seenIn files current above]

@[simp]
theorem walk_seenIn
    (files : FileSystem)
    (current : Place)
    (links : Nat)
    (place : Place)
    (steps : List String) :
    (files.seenIn current).walk links place steps =
      files.walk links place steps := by
  fun_induction files.walk links place steps with
  | case1 => rw [walk]
  | case2 links place step rest children inside still again =>
      simp [walk, inside, still, again]
  | case3 links place rest children inside moves again =>
      simp [walk, inside, again]
  | case4 links place step rest children inside moves enters long =>
      simp [walk, inside, moves, enters, long]
  | case5 links place step rest children inside moves enters short missing =>
      simp [walk, inside, moves, enters, short, missing]
  | case6 place step rest children inside moves enters short target present =>
      simp [walk, inside, moves, enters, short, present]
  | case7 place step rest children inside moves enters short target present
    links again =>
      simp [walk, inside, moves, enters, short, present, again]
  | case8 links place step rest children inside moves enters short entry real
    present again =>
      simp [walk, inside, moves, enters, short, present, again]
  | case9 links place step rest entry other present =>
      rw [walk, at?_seenIn, present]
      cases entry with
      | directory children => exact absurd rfl (other children)
      | file content => rfl
      | link target => rfl
      | device => rfl
  | case10 links place step rest missing => simp [walk, missing]

/-- A text from the root on means the same in every directory. -/
theorem find_seenIn
    {text : String}
    (rooted : text.toList.head? = some '/')
    (files : FileSystem)
    (current : Place) :
    (files.seenIn current).find text = files.find text := by
  have here : ∀ place, start place text = [] := fun _ => if_pos rooted
  have located : (files.seenIn current).locate text = files.locate text := by
    unfold locate
    simp [here]
  unfold find
  rw [located]
  simp only [at?_seenIn]

end FileSystem

/-- What references are resolved against with packages from a modules
directory. -/
def Setting.ofModules
    (files : FileSystem) (modules : Path) (resolveNested : Bool) :
    Setting :=
  ⟨files, files.searchModules modules.text, resolveNested⟩

private theorem Setting.inspect_of_directory
    {setting : Setting}
    {path : Path}
    (directory : setting.files.kind path.text = .ok .directory) :
    setting.inspect path = .ok (.string path.text, false) := by
  rw [inspect, directory]

namespace Resolver

/-- The base that a resolver takes is from the root on unless it is taken for a
drive. -/
theorem rooted_absoluteBase_iff
    {files : FileSystem} {base : String} {options : Options} {root : Path}
    (seen : (Resolver.ofText base options).absoluteBase files = .ok root) :
    root.anchor ≠ .relative ↔ ¬ Document.IsDrive base := by
  have own : (Resolver.ofText base options).base = Path.ofText base := rfl
  unfold absoluteBase at seen
  rw [own] at seen
  by_cases absolute : (Path.ofText base).isAbsolute = true
  · rw [if_pos absolute] at seen
    obtain rfl := Except.ok.inj seen
    constructor
    · intro rooted drive
      exact rooted drive.1
    · intro plain relative
      rcases Path.isAbsolute_iff.mp absolute with rooted | drive
      · exact rooted relative
      · exact plain ⟨relative, drive⟩
  · rw [if_neg absolute] at seen
    have rooted : root.anchor ≠ .relative := by
      split at seen
      · rename_i found
        obtain rfl := Except.ok.inj seen
        exact FileSystem.rooted_absolute found
      · cases seen
    have plain : ¬ Document.IsDrive base :=
      fun drive => absolute (Path.isAbsolute_iff.mpr (Or.inr drive.2))
    exact iff_of_true rooted plain

private theorem source_ofText
    {files : FileSystem} {options : Options} {modules : Path} (base : String)
    (found : options.modulesRoot files = .ok modules) :
    (Resolver.ofText base options).source files = .ok (.modules modules) := by
  simp only [source, ofText, found, Except.map]

/-- A resolution that comes out is one of its setting: with packages from the
modules directory, relative to the base that the resolver takes. -/
theorem exists_result_of_resolve
    {files : FileSystem} {base : String} {options : Options} {tree node : Node}
    (resolved :
      ((Resolver.ofText base options).resolve files tree).1 = .ok node) :
    ∃ modules root, options.modulesRoot files = .ok modules ∧
      (Resolver.ofText base options).absoluteBase files = .ok root ∧
      (Setting.ofModules files modules options.resolveNested).result .empty []
          root tree = .ok node := by
  obtain ⟨modules, found⟩ := exists_modulesRoot_of_resolve resolved
  have source := source_ofText base found
  obtain ⟨root, seen, ran⟩ :=
    Setting.exists_run_of_resolveWithCache (Resolver.ofText base options) files
      (.modules modules) .empty tree
  refine ⟨modules, root, found, seen, ?_⟩
  rw [resolve, source] at resolved
  dsimp only at resolved
  rw [ran] at resolved
  exact resolved

end Resolver

/-- Each reference to a directory that a successful resolution comes to, in the
tree or in a file that it resolves, comes out as the path of the directory. The
path is from the root on, and so it leads to the directory from wherever it is
read, unless the base is taken for a drive; then the relative references of the
tree give relative paths. -/
theorem resolve_names_directories
    {files : FileSystem} {base : String} {options : Options} {tree node : Node}
    (resolved :
      ((Resolver.ofText base options).resolve files tree).1 = .ok node) :
    ∃ modules root setting, options.modulesRoot files = .ok modules ∧
      (Resolver.ofText base options).absoluteBase files = .ok root ∧
      setting = Setting.ofModules files modules options.resolveNested ∧
      node = tree.substitute (setting.meaningIn .empty [] root) ∧
      (∀ resolving home value path,
        setting.Reaches .empty [] root tree resolving home value →
          Setting.targetOf setting.search home value = some path →
          files.kind path.text = .ok .directory →
          setting.result .empty resolving home (.string value) =
            .ok (.string path.text) ∧
            (¬ Document.IsDrive base →
              path.text.toList.head? = some '/' ∧
                ∀ current,
                  (files.seenIn current).find path.text = files.find path.text))
        ∧
      (Document.IsDrive base →
        ∀ value text,
          Reference.classify value = .ok (some (.relative text)) →
            ∀ path,
              Setting.targetOf setting.search root value = some path →
                path.text.toList.head? ≠ some '/') := by
  obtain ⟨modules, root, found, seen, ended⟩ :=
    Resolver.exists_result_of_resolve resolved
  refine ⟨modules, root, _, found, seen, rfl,
    Setting.eq_substitute_of_result ended, ?_, ?_⟩
  · intro resolving home value path reaches leads directory
    refine ⟨Setting.result_of_inspect leads
        (Setting.inspect_of_directory directory), fun plain => ?_⟩
    have rootedBase := (Resolver.rooted_absoluteBase_iff seen).mpr plain
    have packages : ∀ name package,
        PackageCache.empty.answer
              (Setting.ofModules files modules options.resolveNested).search
              name = some package →
            (Path.ofText package).anchor ≠ .relative := by
      intro name package answer
      rw [PackageCache.answer_empty] at answer
      exact FileSystem.rooted_of_searchModules
        (options.rooted_modulesRoot found) answer
    have rootedHome := Setting.rooted_of_reaches packages reaches rootedBase
    have rooted := Setting.rooted_of_targetOf rootedHome packages leads
    have slash := Path.head?_text rooted
    exact ⟨slash, FileSystem.find_seenIn slash files⟩
  · intro drive value text classified path leads
    have relativeBase : root.anchor = .relative := by
      by_contra rooted
      exact (Resolver.rooted_absoluteBase_iff seen).mp rooted drive
    rw [Setting.targetOf, classified] at leads
    obtain rfl := Option.some.inj leads
    rw [ne_eq, Path.head?_text_iff]
    exact not_not.mpr relativeBase

/-! ## One directory -/

/-- A relative reference to a directory that is a tree by itself comes out as
the directory's path. -/
theorem resolve_directory
    {files : FileSystem}
    {base value text : String}
    {options : Options}
    {modules root : Path}
    (found : options.modulesRoot files = .ok modules)
    (seen : (Resolver.ofText base options).absoluteBase files = .ok root)
    (classified : Reference.classify value = .ok (some (.relative text)))
    (directory : files.kind (root.join text).text = .ok .directory) :
    ((Resolver.ofText base options).resolve files (.string value)).1 =
      .ok (.string (root.join text).text) := by
  have source := Resolver.source_ofText base found
  obtain ⟨other, again, ran⟩ :=
    Setting.exists_run_of_resolveWithCache (Resolver.ofText base options) files
      (.modules modules) .empty (.string value)
  obtain rfl : other = root := Except.ok.inj (again.symm.trans seen)
  have leads : Setting.targetOf (PackageCache.empty.answer
      (Setting.ofModules files modules options.resolveNested).search) other
            value = some (other.join text) := by
    rw [Setting.targetOf, classified]
  rw [Resolver.resolve, source]
  dsimp only
  rw [ran]
  exact Setting.result_of_inspect leads (Setting.inspect_of_directory directory)

/-- Under the root there is a directory `name` that holds a directory `sub`. -/
def nestedDirectory (name : String) : FileSystem :=
  ⟨[(name, .directory [("sub", .directory [])])], []⟩

private theorem kind_of_find
    {files : FileSystem} {text : String} {children : List (String × Entry)}
    (found : files.find text = .ok (.directory children)) :
    files.kind text = .ok .directory := by
  rw [FileSystem.kind, found]

theorem resolve_names_directories_conf :
    ((Resolver.ofText "conf" Options.default).resolve (nestedDirectory "conf")
        (.string "./sub")).1 = .ok (.string "/conf/sub") ∧
      ¬ Document.IsDrive "conf" ∧
      (nestedDirectory "conf").kind "/conf/sub" = .ok .directory ∧
      "/conf/sub".toList.head? = some '/' ∧
      ∀ current,
        ((nestedDirectory "conf").seenIn current).find "/conf/sub" =
          (nestedDirectory "conf").find "/conf/sub" := by
  have sub : (Path.ofText "/conf").join "./sub" = Path.ofText "/conf/sub" := by
    decide
  have text : (Path.ofText "/conf/sub").text = "/conf/sub" := by decide
  have directory :
      (nestedDirectory "conf").kind ((Path.ofText "/conf").join "./sub").text =
        .ok .directory := by
    rw [sub, text]
    exact kind_of_find
      (FileSystem.find_placeText ["sub", "conf"] rfl rfl (by decide))
  have classified :
      Reference.classify "./sub" = .ok (some (.relative "./sub")) := by
    decide
  have seen :
      (Resolver.ofText "conf" Options.default).absoluteBase
          (nestedDirectory "conf") = .ok (Path.ofText "/conf") := by
    have relative : ¬ (Path.ofText "conf").isAbsolute = true := by decide
    have absolute :
        (nestedDirectory "conf").absolute (Path.ofText "conf").text =
          .ok (Path.ofText "/conf") := by
      rw [FileSystem.absolute, if_neg (by decide)]
      exact congrArg Except.ok (by decide)
    rw [Resolver.absoluteBase, Resolver.ofText, if_neg relative]
    dsimp only
    rw [absolute]
  have resolved := resolve_directory rfl seen classified directory
  obtain ⟨modules, root, setting, _, seenAgain, _, _, each, _⟩ :=
    resolve_names_directories resolved
  obtain rfl : root = Path.ofText "/conf" :=
    Except.ok.inj (seenAgain.symm.trans seen)
  have leads : Setting.targetOf setting.search (Path.ofText "/conf") "./sub" =
      some ((Path.ofText "/conf").join "./sub") := by
    rw [Setting.targetOf, classified]
  have plain : ¬ Document.IsDrive "conf" := by decide
  obtain ⟨_, rooted⟩ :=
    each [] (Path.ofText "/conf") "./sub" _ (.here ⟨[], [], rfl, by simp⟩) leads
      directory
  have named := rooted plain
  rw [sub, text] at resolved directory named
  exact ⟨resolved, plain, directory, named⟩

/-- A base whose second byte is a colon is no drive here, and still the
reference to its directory comes out relative: from another directory it leads
nowhere. -/
theorem resolve_in_drive :
    ((Resolver.ofText "a:b" Options.default).resolve (nestedDirectory "a:b")
        (.string "./sub")).1 = .ok (.string "a:b/sub") ∧
      (nestedDirectory "a:b").kind "a:b/sub" = .ok .directory ∧
      "a:b/sub".toList.head? ≠ some '/' ∧
      ((nestedDirectory "a:b").seenIn ["a:b"]).find "a:b/sub" =
        .error .notFound := by
  have way : FileSystem.steps "a:b/sub" = ["a:b", "sub"] := by decide
  have located :
      (nestedDirectory "a:b").locate "a:b/sub" = .ok ["sub", "a:b"] := by
    refine FileSystem.locate_eq_ok_iff.mpr ⟨by decide, by decide, by decide, ?_⟩
    rw [FileSystem.Leads, way]
    have present :
        (nestedDirectory "a:b").at? ["sub", "a:b"] = some (.directory []) :=
      rfl
    exact
      FileSystem.walk_of_at? rfl _ (by decide) present
  have found :
      (nestedDirectory "a:b").find "a:b/sub" = .ok (.directory []) := by
    rw [FileSystem.find, located]
    rfl
  have sub : (Path.ofText "a:b").join "./sub" = Path.ofText "a:b/sub" := by
    decide
  have text : (Path.ofText "a:b/sub").text = "a:b/sub" := by decide
  have directory :
      (nestedDirectory "a:b").kind ((Path.ofText "a:b").join "./sub").text =
        .ok .directory := by
    rw [sub, text]
    exact kind_of_find found
  have seen :
      (Resolver.ofText "a:b" Options.default).absoluteBase
          (nestedDirectory "a:b") = .ok (Path.ofText "a:b") := by
    have absolute : (Path.ofText "a:b").isAbsolute = true := by decide
    rw [Resolver.absoluteBase, Resolver.ofText, if_pos absolute]
  have classified :
      Reference.classify "./sub" = .ok (some (.relative "./sub")) := by
    decide
  have resolved := resolve_directory rfl seen classified directory
  have missing :
      ((nestedDirectory "a:b").seenIn ["a:b"]).locate "a:b/sub" =
        .error .notFound := by
    have start :
        FileSystem.start ((nestedDirectory "a:b").seenIn ["a:b"]).current
            "a:b/sub" = ["a:b"] := by
      decide
    have inside : ((nestedDirectory "a:b").seenIn ["a:b"]).at? ["a:b"] =
        some (.directory [("sub", .directory [])]) := rfl
    rw [FileSystem.locate, if_neg (by decide), if_neg (by decide),
      if_neg (by decide), way, start]
    exact FileSystem.walk_missing inside (by decide) (by decide) rfl _ _
  rw [sub, text] at resolved directory
  refine ⟨resolved, directory, by decide, ?_⟩
  rw [FileSystem.find, missing]

end ConfigTree
