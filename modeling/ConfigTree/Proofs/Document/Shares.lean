import ConfigTree.Proofs.Document.ByName
import ConfigTree.Proofs.Document.Twins

/-!
# Files directly under a share

The directory of a file directly under a share is the root, and there the file
is found as well. Loading it from either place gives the same document, or fails
by a fault of the same kind (`load_join_fileName_alike`).
-/

namespace ConfigTree

namespace FileSystem

variable {files : FileSystem}

/-! ## Names in the root -/

private theorem steps_name
    {name : String} (proper : IsEntryName name) :
    steps ("/" ++ name) = ["", name] := by
  have alone :=
    steps_intercalate (List.cons_ne_nil name [])
      (List.forall_mem_singleton.mpr proper)
  rw [String.intercalate_singleton] at alone
  rw [steps_slash_append, alone]

/-- A name that no entry can have, as it is too long, is not found in the
root. -/
theorem locate_of_long_name
    {name : String}
    (proper : IsEntryName name)
    (long : longestName < name.utf8ByteSize)
    (plain : ("/" ++ name).toList.contains '\x00' = false) :
    files.locate ("/" ++ name) = .error .nameTooLong := by
  obtain ⟨nonempty, notDot, notDots, _⟩ := id proper
  have slash : "/" ++ name ≠ "" := by
    intro empty
    have chars := congrArg String.toList empty
    rw [String.toList_append] at chars
    cases chars
  have starts : start files.current ("/" ++ name) = [] :=
    if_pos (head?_slash_append name)
  rw [locate, plain, if_neg (by decide), if_neg slash]
  by_cases size : pathLimit ≤ ("/" ++ name).utf8ByteSize
  · rw [if_pos size]
  · rw [if_neg size, starts, steps_name proper,
      walk_through_directory files.at?_root, walk, files.at?_root]
    dsimp only
    rw [if_neg (not_or.mpr ⟨nonempty, notDot⟩), if_neg notDots, if_pos long]

/-- A name is looked up alike under a share and in the root, whatever its
length. -/
theorem locate_share {name : String} (proper : IsEntryName name) :
    files.locate ("/" ++ ("/" ++ name)) = files.locate ("/" ++ name) := by
  have slash := head?_slash_append name
  by_cases short : ("/" ++ ("/" ++ name)).utf8ByteSize < pathLimit
  · exact locate_slash_append slash short
  · have nul :
        ("/" ++ ("/" ++ name)).toList.contains '\x00' =
          ("/" ++ name).toList.contains '\x00' := by
      rw [String.toList_append, List.contains_append]
      rfl
    cases plain : ("/" ++ name).toList.contains '\x00' with
    | true => rw [locate, locate, nul, plain, if_pos rfl, if_pos rfl]
    | false =>
        have sizes :
            ("/" ++ ("/" ++ name)).utf8ByteSize = 2 + name.utf8ByteSize := by
          rw [String.utf8ByteSize_append, String.utf8ByteSize_append,
            ← Nat.add_assoc]
          rfl
        have long : longestName < name.utf8ByteSize := by
          rw [sizes] at short
          unfold pathLimit at short
          unfold longestName
          omega
        have nonempty : "/" ++ ("/" ++ name) ≠ "" := by
          intro empty
          have chars := congrArg String.toList empty
          rw [String.toList_append] at chars
          cases chars
        rw [locate_of_long_name proper long plain, locate, nul, plain,
          if_neg (by decide), if_neg nonempty, if_pos (Nat.not_lt.mp short)]

/-! ## Documents -/

/-- Two paths of one name and extension whose texts are looked up alike read
alike. -/
theorem readAlike_of_locate
    {path other : Path} (names : other.fileName? = path.fileName?)
    (located : files.locate path.text = files.locate other.text) :
    files.ReadAlike path other := by
  have read : files.readText path.text = files.readText other.text := by
    unfold readText find
    rw [located]
  have format : Format.ofPath? other = Format.ofPath? path := by
    unfold Format.ofPath? Path.extension?
    rw [names]
  unfold ReadAlike readDocument
  rw [read, format]
  cases files.readText other.text with
  | error what => rfl
  | ok content =>
      dsimp only
      cases Format.ofPath? path with
      | none => rfl
      | some format =>
          dsimp only
          cases Document.ofText? format content with
          | none => rfl
          | some document => rfl

/-- Paths that read alike and lie in one directory load alike: whatever one of
them includes is what the other one includes by the same name. -/
theorem load_alike_elsewhere
    {path other : Path}
    (above : other.parent? = path.parent?)
    (alike : files.ReadAlike path other) :
    (files.load path).mapError LoadFault.kind =
      (files.load other).mapError LoadFault.kind := by
  let twin : Path → Path → Prop :=
    fun first second => first = second ∨ first = path ∧ second = other
  have twinning : files.IsTwinning twin := by
    constructor
    · rintro _ _ (rfl | ⟨rfl, rfl⟩)
      · rfl
      · exact alike
    · rintro _ _ name (rfl | ⟨rfl, rfl⟩) _
      · exact .inl rfl
      · apply Or.inl
        unfold Document.includePath
        rw [above]
  exact load_of_twins twinning (.inr ⟨rfl, rfl⟩)

/-- A document is loaded alike by its path and by the directory and the name of
its path. -/
theorem load_join_fileName_alike
    {path directory : Path} {name : String} (rooted : path.anchor ≠ .relative)
    (above : path.parent? = some directory)
    (last : path.fileName? = some name) :
    (files.load path).mapError LoadFault.kind =
      (files.load (directory.join name)).mapError LoadFault.kind := by
  rcases Path.join_fileName_or_share above last with same | ⟨share, alone, rfl⟩
  · rw [same]
  · obtain ⟨trails, parents⟩ := Path.join_fileName above last rooted
    have named : path.trail ≠ [] := by simp [alone]
    have proper : IsEntryName name := by
      have all := path.isTrail
      rw [alone] at all
      refine ⟨all.1.1, all.1.2.1, fun climbs => rooted (all.2.1 climbs).1,
        fun slash => ?_⟩
      exact absurd (all.1.2.2 '/' slash) (by decide)
    have text : path.text = "/" ++ ("/" ++ name) := by
      rw [Path.text_of_rooted rooted, share, alone, List.reverse_singleton,
        String.intercalate_singleton, ← String.append_assoc]
      rfl
    have rootedJoined : ((Path.ofAnchor .root).join name).anchor ≠ .relative :=
      fun same => nomatch same
    have textJoined : ((Path.ofAnchor .root).join name).text = "/" ++ name := by
      rw [Path.text_of_rooted rootedJoined, trails, alone,
        List.reverse_singleton, String.intercalate_singleton]
      rfl
    apply load_alike_elsewhere
    · rcases parents with same | ⟨_, sameParent⟩
      · rw [same]
      · exact sameParent.trans above.symm
    · apply readAlike_of_locate (Path.fileName?_eq named trails)
      rw [text, textJoined]
      exact locate_share proper

end FileSystem

end ConfigTree
