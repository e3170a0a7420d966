import ConfigTree.CommandLine.Basic
import ConfigTree.Proofs.FileSystem.Absolute
import ConfigTree.Proofs.Resolver.Directories

/-!
# One text, one directory

A resolver cleans the text of its base and makes it absolute afterwards; the
command line makes the text absolute as it is written. Main statement: when both
orders give one path, and when both mean the same directory by the text
(`absolute_commutes_with_cleaning`). A text that starts with a backslash is from
the root on for the one and below the current directory for the other
(`absolute_of_backslash`).
-/

namespace ConfigTree

variable {files : FileSystem} {text : String}

/-- A resolver takes the directory that the text of its base stands for, unless
it takes the text for a drive. -/
theorem Resolver.absoluteBase_eq_meant_iff
    (proper : files.HasProperCurrent) (options : Options) :
    (Resolver.ofText text options).absoluteBase files = .ok (files.meant text) ↔
      ¬ Document.IsDrive text := by
  constructor
  · intro seen
    exact (Resolver.rooted_absoluteBase_iff seen).mp (files.rooted_meant text)
  · intro plain
    have own : (Resolver.ofText text options).base = Path.ofText text := rfl
    rw [absoluteBase, own]
    by_cases relative : Path.anchorOf text = .relative
    · rw [if_neg (Document.not_isAbsolute_of_not_isDrive relative plain),
        files.absolute_text_ofText proper]
    · have absolute : (Path.ofText text).isAbsolute = true :=
        Path.isAbsolute_iff.mpr (Or.inl relative)
      rw [if_pos absolute, FileSystem.meant_of_rooted relative]

namespace CommandLine

private theorem baseOf_eq_ok_iff
    {request : Request}
    (asked : request.baseDir = some text)
    (file base : Path) :
    baseOf files request file = .ok base ↔ files.absolute text = .ok base := by
  rw [baseOf, asked]
  dsimp only [absolute]
  cases files.absolute text with
  | error what => simp
  | ok path => simp

/-- A text that is cleaned and then made absolute gives the path that it stands
for: the cleaned path if that starts with a slash, and else what the text leads
to from the current directory. It gives the same path when it is made absolute
as it is written if and only if the absolute text starts where that path does
and, should the text start with a backslash, nothing is left of the current
directory. This is so of every text whose first name does not start with a
backslash, and of every relative text if the current directory is not the root.
The command line and a resolver mean the same directory by a text if and only if
both orders agree and the text is no drive. -/
theorem absolute_commutes_with_cleaning
    (proper : files.HasProperCurrent) (nonempty : text ≠ "")
    {request : Request}
    (asked : request.baseDir = some text)
    (file : Path)
    (options : Options) :
    files.absolute (Path.ofText text).text = .ok (files.meant text) ∧
      (files.absolute text = files.absolute (Path.ofText text).text ↔
        Path.anchorOf (files.absoluteText text) = (files.meant text).anchor ∧
          (text.toList.head? = some '\\' →
            files.here.climb (Path.climbs text) = [])) ∧
      (FileSystem.StartsPlain text ∨
        Path.anchorOf text = .relative ∧ files.current ≠ [] →
        files.absolute text = files.absolute (Path.ofText text).text) ∧
      ((∃ base, baseOf files request file = .ok base ∧
          (Resolver.ofText text options).absoluteBase files = .ok base) ↔
        files.absolute text = files.absolute (Path.ofText text).text ∧
            ¬ Document.IsDrive text) := by
  have cleaned := files.absolute_text_ofText proper text
  rw [cleaned]
  refine ⟨rfl, FileSystem.absolute_eq_meant_iff nonempty,
    FileSystem.absolute_eq_meant proper nonempty, ?_⟩
  constructor
  · rintro ⟨base, given, taken⟩
    have written := (baseOf_eq_ok_iff asked file base).mp given
    have plain :=
      (Resolver.rooted_absoluteBase_iff taken).mp
        (FileSystem.rooted_absolute written)
    have same :=
      taken.symm.trans
        ((Resolver.absoluteBase_eq_meant_iff proper options).mpr plain)
    exact ⟨Except.ok.inj same ▸ written, plain⟩
  · rintro ⟨written, plain⟩
    exact ⟨files.meant text, (baseOf_eq_ok_iff asked file _).mpr written,
      (Resolver.absoluteBase_eq_meant_iff proper options).mpr plain⟩

/-- A file system whose current directory is an empty one below the root. -/
def emptyRoom : FileSystem :=
  ⟨[("room", .directory [])], ["room"]⟩

/-- To resolve a file with a base directory. -/
def requestWithBase (text : String) : Request :=
  ⟨"main.yaml", some text, none, none, none, .json, false, false⟩

private theorem proper_emptyRoom : emptyRoom.HasProperCurrent :=
  ⟨by decide, by decide⟩

theorem absolute_commutes_with_cleaning_emptyRoom :
    let text := "..\\a/./b"
    emptyRoom.HasProperCurrent ∧ text ≠ "" ∧
      (requestWithBase text).baseDir = some text ∧
      emptyRoom.absolute (Path.ofText text).text = .ok (Path.ofText "/a/b") ∧
      emptyRoom.absolute text = emptyRoom.absolute (Path.ofText text).text ∧
      ∃ base,
        baseOf emptyRoom (requestWithBase text) (Path.ofText "/main.yaml") =
          .ok base ∧
        (Resolver.ofText text .default).absoluteBase emptyRoom = .ok base := by
  have nonempty : "..\\a/./b" ≠ "" := by decide
  have asked : (requestWithBase "..\\a/./b").baseDir = some "..\\a/./b" := rfl
  have plain : FileSystem.StartsPlain "..\\a/./b" := by decide
  have noDrive : ¬ Document.IsDrive "..\\a/./b" := by decide
  have meant : emptyRoom.meant "..\\a/./b" = Path.ofText "/a/b" := by decide
  obtain ⟨cleaned, _, same, agree⟩ :=
    absolute_commutes_with_cleaning proper_emptyRoom nonempty asked
      (Path.ofText "/main.yaml") .default
  have written := same (Or.inl plain)
  exact ⟨proper_emptyRoom, nonempty, asked, meant ▸ cleaned, written,
    agree.mpr ⟨written, noDrive⟩⟩

/-- Cleaned first, a text that starts with a backslash is from the root on. Made
absolute first, it is below the current directory, so that a resolver and the
command line mean different directories by it. -/
theorem absolute_of_backslash :
    emptyRoom.absolute (Path.ofText "\\a").text = .ok (Path.ofText "/a") ∧
      emptyRoom.absolute "\\a" = .ok (Path.ofText "/room/a") ∧
      (Resolver.ofText "\\a" .default).absoluteBase emptyRoom =
        .ok (Path.ofText "/a") ∧
      baseOf emptyRoom (requestWithBase "\\a") (Path.ofText "/main.yaml") =
        .ok (Path.ofText "/room/a") ∧
      Path.ofText "/room/a" ≠ Path.ofText "/a" := by
  have meant : emptyRoom.meant "\\a" = Path.ofText "/a" := by decide
  have taken :=
    (Resolver.absoluteBase_eq_meant_iff proper_emptyRoom Options.default).mpr
      (by decide : ¬ Document.IsDrive "\\a")
  have text : emptyRoom.absoluteText "\\a" = "/room/\\a" := by decide
  have path : Path.ofText "/room/\\a" = Path.ofText "/room/a" := by decide
  have written : emptyRoom.absolute "\\a" = .ok (Path.ofText "/room/a") := by
    rw [FileSystem.absolute, if_neg (by decide), text, path]
  have cleaned := emptyRoom.absolute_text_ofText proper_emptyRoom "\\a"
  rw [meant] at taken cleaned
  exact ⟨cleaned, written, taken, (baseOf_eq_ok_iff rfl _ _).mpr written,
    by decide⟩

end CommandLine

end ConfigTree
