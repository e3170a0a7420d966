import ConfigTree.Proofs.FileSystem.Stages

/-!
# The order of entries

Two file systems have the same entries if at every place there is the same,
whatever order a directory's children are listed in. Main statement: a text then
leads to the same place in both (`HasSameEntries.locate_eq`).
-/

namespace ConfigTree

/-- An entry without a directory's children. -/
def Entry.bare : Entry → Entry
  | .directory _ => .directory []
  | entry => entry

namespace FileSystem

variable {files other : FileSystem}

/-- At every place there is the same, and relative paths start from the same
directory. -/
structure HasSameEntries (files other : FileSystem) : Prop where
  current : other.current = files.current
  entries :
    ∀ place, (other.at? place).map Entry.bare = (files.at? place).map Entry.bare

theorem HasSameEntries.symm
    (same : files.HasSameEntries other) :
    other.HasSameEntries files :=
  ⟨same.current.symm, fun place => (same.entries place).symm⟩

private theorem HasSameEntries.at?_eq_none
    (same : files.HasSameEntries other)
    {place : Place}
    (missing : files.at? place = none) :
    other.at? place = none := by
  have bare := same.entries place
  rw [missing] at bare
  exact Option.map_eq_none_iff.mp bare

theorem HasSameEntries.exists_children
    (same : files.HasSameEntries other)
    {place : Place}
    {children : List (String × Entry)}
    (inside : files.at? place = some (.directory children)) :
    ∃ reordered, other.at? place = some (.directory reordered) := by
  have bare := same.entries place
  rw [inside] at bare
  obtain ⟨entry, present, directory⟩ := Option.map_eq_some_iff.mp bare
  cases entry with
  | directory reordered => exact ⟨reordered, present⟩
  | _ => cases directory

theorem HasSameEntries.at?_eq
    (same : files.HasSameEntries other)
    {place : Place}
    {entry : Entry}
    (leaf : ∀ children, entry ≠ .directory children)
    (present : files.at? place = some entry) :
    other.at? place = some entry := by
  have bare := same.entries place
  rw [present] at bare
  obtain ⟨found, there, equal⟩ := Option.map_eq_some_iff.mp bare
  cases entry with
  | directory children => exact absurd rfl (leaf children)
  | _ =>
      cases found <;> cases equal
      exact there

private theorem HasSameEntries.advance_eq
    (same : files.HasSameEntries other)
    (links : Nat)
    (place : Place)
    (step : String) :
    other.advance links place step = files.advance links place step := by
  unfold advance
  cases inside : files.at? place with
  | none => rw [same.at?_eq_none inside]
  | some entry =>
      cases entry with
      | file _ | link _ | device =>
          rw [same.at?_eq (fun _ => Entry.noConfusion) inside]
      | directory _ =>
          obtain ⟨reordered, insideOther⟩ := same.exists_children inside
          rw [insideOther]
          cases present : files.at? (step :: place) with
          | none => rw [same.at?_eq_none present]
          | some found =>
              cases found with
              | file _ | link _ | device =>
                  rw [same.at?_eq (fun _ => Entry.noConfusion) present]
              | directory _ =>
                  obtain ⟨_, presentOther⟩ := same.exists_children present
                  rw [presentOther]

private theorem HasSameEntries.walk_eq
    (same : files.HasSameEntries other) :
    ∀ (links : Nat) (place : Place) (way : List String),
      other.walk links place way = files.walk links place way
  | links, place, [] => by simp
  | links, place, step :: way => by
      rw [walk_advance, walk_advance, same.advance_eq]
      cases advanced : files.advance links place step with
      | error obstacle => rfl
      | ok stage => exact same.walk_eq stage.1 stage.2.1 (stage.2.2 ++ way)
termination_by links _ way => (links, way.length)
decreasing_by exact advance_decreases advanced way

/-- A text leads to the same place, in whatever order entries are listed. -/
theorem HasSameEntries.locate_eq
    (same : files.HasSameEntries other) (text : String) :
    other.locate text = files.locate text := by
  unfold locate
  rw [same.current, same.walk_eq]

theorem HasSameEntries.isDirectory_eq
    (same : files.HasSameEntries other) (text : String) :
    other.isDirectory text = files.isDirectory text := by
  rw [Bool.eq_iff_iff, isDirectory_iff, isDirectory_iff, same.locate_eq]
  constructor
  · rintro ⟨place, children, located, inside⟩
    obtain ⟨reordered, inside⟩ := same.symm.exists_children inside
    exact ⟨place, reordered, located, inside⟩
  · rintro ⟨place, children, located, inside⟩
    obtain ⟨reordered, inside⟩ := same.exists_children inside
    exact ⟨place, reordered, located, inside⟩

end FileSystem

end ConfigTree
