import ConfigTree.Path.Lemmas

/-!
# Room for paths

Only finitely many paths have a text of at most some length. A walk that never
enters a path twice and only enters such paths comes to an end: `room` gets less
with each one it enters.
-/

namespace ConfigTree.Path

noncomputable def everyChar : List Char :=
  (List.range 0x110000).map Char.ofNat

private theorem mem_everyChar (c : Char) : c ∈ everyChar := by
  refine List.mem_map.mpr ⟨c.toNat, List.mem_range.mpr ?_, Char.ofNat_toNat c⟩
  have valid := c.valid
  simp only [UInt32.isValidChar, Nat.isValidChar] at valid
  simp only [Char.toNat]
  omega

/-- The texts of at most so many characters. -/
noncomputable def textsWithin : Nat → List (List Char)
  | 0 => [[]]
  | limit + 1 =>
      [] :: (textsWithin limit).flatMap fun text => everyChar.map (· :: text)

private theorem mem_textsWithin :
    {limit : Nat} → (text : List Char) → text.length ≤ limit →
      text ∈ textsWithin limit
  | 0, [], _ => by simp [textsWithin]
  | _ + 1, [], _ => by simp [textsWithin]
  | limit + 1, c :: rest, short => by
    have inRest : rest ∈ textsWithin limit :=
      mem_textsWithin rest (Nat.le_of_succ_le_succ short)
    exact List.mem_cons_of_mem _
      (List.mem_flatMap.mpr
        ⟨rest, inRest, List.mem_map.mpr ⟨c, mem_everyChar c, rfl⟩⟩)

noncomputable def pathsWithin (limit : Nat) : List Path :=
  (textsWithin limit).map fun text => ofText (String.ofList text)

private theorem mem_pathsWithin
    {limit : Nat} {path : Path} (short : path.text.toList.length ≤ limit) :
    path ∈ pathsWithin limit :=
  List.mem_map.mpr
    ⟨path.text.toList, mem_textsWithin _ short,
      by rw [String.ofList_toList, ofText_text]⟩

private theorem countP_lt_countP {α : Type} {p q : α → Bool} {x : α} :
    {list : List α} → (∀ y ∈ list, p y = true → q y = true) → x ∈ list →
      p x = false → q x = true → list.countP p < list.countP q
  | [], _, member, _, _ => by simp at member
  | first :: rest, weaker, member, fails, holds => by
    have inRest : ∀ y ∈ rest, p y = true → q y = true :=
      fun y among => weaker y (List.mem_cons_of_mem _ among)
    have atMost : rest.countP p ≤ rest.countP q := List.countP_mono_left inRest
    have here := weaker first (List.mem_cons_self ..)
    rw [List.countP_cons, List.countP_cons]
    rcases List.mem_cons.mp member with rfl | among
    · rw [fails, holds]
      simp
      omega
    · have below := countP_lt_countP inRest among fails holds
      cases onFirst : p first
      · simp
        split <;> omega
      · rw [here onFirst]
        simp
        omega

/-- Taking one more path leaves fewer that are not taken. -/
theorem countP_not_mem_cons_lt {limit : Nat} {path : Path} {taken : List Path}
    (short : path.text.toList.length ≤ limit) (fresh : path ∉ taken) :
    (pathsWithin limit).countP (fun other => other ∉ path :: taken) <
      (pathsWithin limit).countP (fun other => other ∉ taken) := by
  apply countP_lt_countP (x := path)
  · intro other _ outside
    simp only [decide_eq_true_eq, List.mem_cons, not_or] at *
    exact outside.2
  · exact mem_pathsWithin short
  · simp
  · simpa using fresh

private theorem exists_room
    (limit : Nat) :
    ∃ room : List Path → Nat, ∀ path taken,
    path.text.toList.length ≤ limit → path ∉ taken →
      room (path :: taken) < room taken :=
  ⟨fun taken => (pathsWithin limit).countP fun path => path ∉ taken,
    fun _ _ => countP_not_mem_cons_lt⟩

/-- How much room is left for paths within a length. Nothing but its getting
less matters, so it has no value to compute with. -/
noncomputable def room (limit : Nat) : List Path → Nat :=
  Classical.choose (exists_room limit)

theorem room_cons_lt
    {limit : Nat}
    {path : Path}
    {taken : List Path}
    (short : path.text.toList.length ≤ limit)
    (fresh : path ∉ taken) : room limit (path :: taken) < room limit taken :=
  Classical.choose_spec (exists_room limit) path taken short fresh

end ConfigTree.Path
