import ConfigTree.Proofs.FileSystem.Places
import ConfigTree.Proofs.Package.Below
import ConfigTree.Proofs.Path.Climbing
import ConfigTree.Proofs.Reference.Segments

/-!
# Staying inside a package

A package reference is checked piece by piece between slashes, while joining its
subpath separates at backslashes too. Main statements: exactly when the path of
a reference lies in the package that is found (`package_target_inside_iff`), and
a reference whose path does not (`package_target_leaves`).
-/

namespace ConfigTree

/-- What is found for an accepted package reference lies below the modules
directory, and the path of the reference has all names of the package exactly
when no backslash stands in these names and the subpath comes back to the
package; without a backslash the subpath does so. -/
theorem package_target_inside_iff
    {files : FileSystem} (named : files.HasEntryNames)
    {value name subpath modules root : String}
    (accepted : Reference.classify value = .ok (some (.package name subpath)))
    (found : files.searchModules modules name = some root) :
    ∃ way, way ≠ [] ∧ (∀ entry ∈ way, IsEntryName entry) ∧
      root = joinNames modules way ∧
      (way.reverse ++ (Path.ofText modules).trail <:+
          ((Path.ofText root).join subpath).trail ↔
        (∀ entry ∈ way, '\\' ∉ entry.toList) ∧
          (Path.ofText root).ComesBack subpath) ∧
      ('\\' ∉ subpath.toList → (Path.ofText root).ComesBack subpath) := by
  obtain ⟨segments, nonempty, all, rfl, stays⟩ :=
    Reference.exists_segments_of_classify accepted
  obtain ⟨way, deeper, proper, same⟩ :=
    FileSystem.exists_way_of_searchModules named nonempty all found
  refine ⟨way, deeper, proper, same, ⟨?_, ?_⟩, ?_⟩
  · intro inside
    have plain : ∀ entry ∈ way, '\\' ∉ entry.toList := by
      intro entry member backslash
      have amongTarget : entry ∈ ((Path.ofText root).join subpath).trail :=
        inside.subset (List.mem_append_left _ (List.mem_reverse.mpr member))
      have unseparated :=
        Path.unseparated_of_mem_trail ((Path.ofText root).join subpath).isTrail
          entry amongTarget
      exact absurd (unseparated '\\' backslash) (by decide)
    refine ⟨plain, ?_⟩
    rw [← Path.trail_ofText_joinNames modules fun entry member =>
        ⟨proper entry member, plain entry member⟩, ← same] at inside
    exact (Path.trail_suffix_join_iff _ _).mp inside
  · intro given
    obtain ⟨plain, back⟩ := given
    rw [← Path.trail_ofText_joinNames modules fun entry member =>
        ⟨proper entry member, plain entry member⟩, ← same]
    exact (Path.trail_suffix_join_iff _ _).mpr back
  · intro plain
    apply Path.comesBack_of_dots_not_mem
    rw [pieces_eq_steps plain]
    exact stays

/-- The modules directory `/m` holds the package `p`. -/
def onePackage : FileSystem :=
  ⟨[("m", .directory [("p", .directory [])])], []⟩

private theorem searchModules_onePackage :
    onePackage.searchModules "/m" "p" = some "/m/p" := by
  have direct : joinText "/m" "p" = "/m/p" := by decide
  have entered : onePackage.isDirectory "/m/p" = true :=
    FileSystem.isDirectory_iff.mpr
      ⟨["p", "m"], _,
        FileSystem.locate_placeText ["p", "m"] rfl rfl (by decide),
        rfl⟩
  rw [FileSystem.searchModules, direct, entered, if_pos rfl]

theorem package_target_inside_iff_onePackage :
    onePackage.HasEntryNames ∧
      Reference.classify "[module] p/x\\..\\y" =
        .ok (some (.package "p" "x\\..\\y")) ∧
      onePackage.searchModules "/m" "p" = some "/m/p" ∧
      ∃ way, way ≠ [] ∧ (∀ entry ∈ way, IsEntryName entry) ∧
        "/m/p" = joinNames "/m" way ∧
        (way.reverse ++ (Path.ofText "/m").trail <:+
            ((Path.ofText "/m/p").join "x\\..\\y").trail ↔
          (∀ entry ∈ way, '\\' ∉ entry.toList) ∧
            (Path.ofText "/m/p").ComesBack "x\\..\\y") ∧
        ('\\' ∉ "x\\..\\y".toList →
          (Path.ofText "/m/p").ComesBack "x\\..\\y") := by
  have named : onePackage.HasEntryNames := by decide
  have accepted :
      Reference.classify "[module] p/x\\..\\y" =
        .ok (some (.package "p" "x\\..\\y")) := by
    decide
  have found := searchModules_onePackage
  exact ⟨named, accepted, found, package_target_inside_iff named accepted found⟩

/-- A backslash takes an accepted reference out of the package, and out of the
modules directory. -/
theorem package_target_leaves :
    onePackage.HasEntryNames ∧
      Reference.classify "[module] p/..\\..\\s" =
        .ok (some (.package "p" "..\\..\\s")) ∧
      onePackage.searchModules "/m" "p" = some "/m/p" ∧
      ((Path.ofText "/m/p").join "..\\..\\s").text = "/s" ∧
      ¬ (Path.ofText "/m/p").trail <:+
        ((Path.ofText "/m/p").join "..\\..\\s").trail := by
  exact
    ⟨by decide, by decide, searchModules_onePackage, by decide, by decide⟩

end ConfigTree
