import ConfigTree.Proofs.Document.Expansion

/-!
# Loading a file by its directory and name

A file's directory and name, joined, give a path that loads the same document
(`load_join_fileName`). For a file directly under a share this is another path,
which starts at the root.
-/

namespace ConfigTree.FileSystem

variable {files : FileSystem}

/-- A file that is found at another path in the same directory stands for the
same there. -/
theorem Stands.elsewhere
    {path other : Path} {value : Yaml.Value} (stands : files.Stands path value)
    (above : other.parent? = path.parent?)
    (reads :
      ∀ document,
        files.readDocument path = .ok document →
          files.readDocument other = .ok document) :
    files.Stands other value := by
  have targets :
      ∀ name,
        Document.includePath other name = Document.includePath path name := by
    intro name
    unfold Document.includePath
    rw [above]
  cases stands with
  | expanded meaning read texts stand =>
      refine .expanded meaning (reads _ read) texts ?_
      intro name member
      rw [targets]
      exact stand name member
  | converted read plain => exact .converted (reads _ read) plain

private theorem load_elsewhere
    {path other : Path}
    {document : Document}
    (loaded : files.load path = .ok document)
    (above : other.parent? = path.parent?)
    (reads :
      ∀ document,
        files.readDocument path = .ok document →
          files.readDocument other = .ok document) :
    files.load other = .ok document := by
  by_cases plain : ∀ value, files.readDocument path ≠ .ok (.yaml value)
  · rw [load_of_not_yaml plain] at loaded
    have plainOther :
        ∀ value, files.readDocument other ≠ .ok (.yaml value) := by
      intro value read
      rw [reads document loaded] at read
      obtain rfl := Except.ok.inj read
      exact plain value loaded
    rw [load_of_not_yaml plainOther]
    exact reads document loaded
  · obtain ⟨value, read⟩ :
        ∃ value, files.readDocument path = .ok (.yaml value) := by
      simpa using plain
    obtain ⟨result, rfl, stands⟩ := (load_of_yaml read).mp loaded
    exact (load_of_yaml (reads _ read)).mpr
      ⟨result, rfl, stands.elsewhere above reads⟩

private theorem size_lt_of_locate
    {text : String} {place : Place} (found : files.locate text = .ok place) :
    text.utf8ByteSize < pathLimit := by
  unfold locate at found
  split at found
  · cases found
  · split at found
    · cases found
    · split at found
      · cases found
      · rename_i short
        exact Nat.not_le.mp short

/-- A text that is read from under a share is read from under the root. -/
theorem readText_of_slash_append
    {text content : String}
    (slash : text.toList.head? = some '/')
    (read : files.readText ("/" ++ text) = .ok content) :
    files.readText text = .ok content := by
  cases located : files.locate ("/" ++ text) with
  | error obstacle => simp [readText, find, located] at read
  | ok place =>
      have same : files.locate ("/" ++ text) = files.locate text :=
        locate_slash_append slash (size_lt_of_locate located)
      unfold readText find at read ⊢
      rwa [same] at read

private theorem readDocument_of_slash_append
    {path other : Path}
    {document : Document}
    (rooted : other.anchor ≠ .relative)
    (named : path.trail ≠ [])
    (trails : other.trail = path.trail) (text : path.text = "/" ++ other.text)
    (read : files.readDocument path = .ok document) :
    files.readDocument other = .ok document := by
  have format : Format.ofPath? other = Format.ofPath? path := by
    unfold Format.ofPath? Path.extension?
    rw [Path.fileName?_eq named trails]
  unfold readDocument at read ⊢
  rw [format]
  split at read
  · cases read
  · rename_i content found
    rw [text] at found
    rw [readText_of_slash_append (Path.head?_text rooted) found]
    split at read
    · exact read
    · split at read
      · rename_i parsed
        dsimp only
        rw [parsed]
        exact read
      · cases read

/-- A document is loaded by the directory and the name of its path. -/
theorem load_join_fileName
    {path directory : Path}
    {name : String}
    {document : Document}
    (rooted : path.anchor ≠ .relative)
    (above : path.parent? = some directory) (last : path.fileName? = some name)
    (loaded : files.load path = .ok document) :
    files.load (directory.join name) = .ok document := by
  obtain ⟨trails, same | ⟨text, sameParent⟩⟩ :=
    Path.join_fileName above last rooted
  · rw [same]
    exact loaded
  · have rootedDirectory : directory.anchor ≠ .relative :=
      Path.rooted_of_parent above rooted
    have rootedJoined : (directory.join name).anchor ≠ .relative :=
      rootedDirectory
    have named : path.trail ≠ [] := by
      intro empty
      obtain ⟨anchor, trail, all⟩ := path
      cases empty
      cases above
    apply load_elsewhere loaded (sameParent.trans above.symm)
    intro found read
    exact readDocument_of_slash_append rootedJoined named trails text read

end ConfigTree.FileSystem
