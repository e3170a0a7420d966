import ConfigTree.Options.Basic
import ConfigTree.Proofs.Package.Below
import ConfigTree.Proofs.Path.Parts

/-!
# Rooted packages

The modules directory is seen from the root (`rooted_modulesRoot`), and so is
every package that is found in it (`rooted_of_searchModules`).
-/

namespace ConfigTree

private theorem head?_append_of_head?
    {text : String} (slash : text.toList.head? = some '/') (later : String) :
    (text ++ later).toList.head? = some '/' := by
  have nonempty : text.toList ≠ [] := by
    intro empty
    rw [empty] at slash
    cases slash
  rw [String.toList_append, List.head?_append_of_ne_nil _ nonempty, slash]

private theorem head?_joinText
    {base : String} (slash : base.toList.head? = some '/') (part : String) :
    (joinText base part).toList.head? = some '/' := by
  unfold joinText
  by_cases alone : part.toList.head? = some '/'
  · rw [if_pos alone, alone]
  · rw [if_neg alone]
    by_cases closed : base = "" ∨ base.toList.getLast? = some '/'
    · rw [if_pos closed]
      exact head?_append_of_head? slash part
    · rw [if_neg closed, String.append_assoc]
      exact head?_append_of_head? slash _

private theorem head?_foldl_joinText :
    ∀ (parts : List String) {base : String}, base.toList.head? = some '/' →
      (parts.foldl joinText base).toList.head? = some '/'
  | [], _, slash => slash
  | part :: rest, _, slash =>
      head?_foldl_joinText rest (head?_joinText slash part)

namespace FileSystem

private theorem head?_of_mem_directoriesBelow
    {files : FileSystem}
    {inside : List Place}
    {text path : String}
    {place : Place}
    {children : List (String × Entry)}
    (slash : text.toList.head? = some '/')
    (member : path ∈ files.directoriesBelow inside text place children) :
    path.toList.head? = some '/' := by
  induction inside, text, place,
      children using directoriesBelow.induct files generalizing path with
  | case1 inside text place children directoryStep linkStep =>
      obtain ⟨name, entry, among, found⟩ := mem_directoriesBelow member
      have here := head?_joinText slash name
      rcases found with
        ⟨inner, rfl, rfl | deeper⟩ |
          ⟨target, inner, directory, outside, rfl | deeper⟩
      · exact here
      · exact
          directoryStep name inner (List.mem_mergeSort.mpr among) here deeper
      · exact here
      · exact linkStep name target inner directory outside here deeper

/-- What the search finds in a rooted modules directory is rooted. -/
theorem rooted_of_searchModules
    {files : FileSystem}
    {modules : Path}
    {name root : String}
    (rooted : modules.anchor ≠ .relative)
    (found : files.searchModules modules.text name = some root) :
    (Path.ofText root).anchor ≠ .relative := by
  apply Path.rooted_of_head?
  have slash := Path.head?_text rooted
  unfold searchModules at found
  dsimp only at found
  split at found
  · obtain rfl := Option.some.inj found
    exact head?_joinText slash name
  · have member := List.mem_of_find?_eq_some found
    unfold directoriesUnder at member
    split at member
    · exact absurd member List.not_mem_nil
    · split at member
      · exact head?_of_mem_directoriesBelow slash member
      · exact absurd member List.not_mem_nil

/-- The text of the current directory starts with a slash. -/
@[simp]
theorem head?_currentText
    (files : FileSystem) :
    files.currentText.toList.head? = some '/' :=
  head?_slash_append _

@[simp]
theorem head?_sightStart
    (files : FileSystem) (text : String) :
    (files.sightStart text).toList.head? = some '/' := by
  unfold sightStart
  split
  · exact files.head?_currentText
  · decide
  · decide

@[simp]
theorem head?_absoluteText
    (files : FileSystem) (text : String) :
    (files.absoluteText text).toList.head? = some '/' := by
  have names :=
    head?_foldl_joinText (namesOf text) (files.head?_sightStart text)
  unfold absoluteText
  dsimp only
  split
  · exact head?_joinText names ""
  · exact names

theorem rooted_absolute
    {files : FileSystem}
    {text : String}
    {path : Path}
    (found : files.absolute text = .ok path) :
    path.anchor ≠ .relative := by
  unfold absolute at found
  by_cases empty : text = ""
  · rw [if_pos empty] at found
    cases found
  · rw [if_neg empty] at found
    obtain rfl := Except.ok.inj found
    exact Path.rooted_of_head? (files.head?_absoluteText text)

end FileSystem

/-- The modules directory is rooted, whatever the project's root is. -/
theorem Options.rooted_modulesRoot
    {files : FileSystem}
    {options : Options}
    {modules : Path}
    (found : options.modulesRoot files = .ok modules) :
    modules.anchor ≠ .relative := by
  unfold modulesRoot at found
  split at found
  · obtain rfl := Except.ok.inj found
    exact Path.rooted_of_head? (head?_slash_append _)
  · split at found
    · rename_i root absolute
      obtain rfl := Except.ok.inj found
      have anchor : (root.join options.modulesDir).anchor = root.anchor := rfl
      rw [anchor]
      exact FileSystem.rooted_absolute absolute
    · cases found

end ConfigTree
