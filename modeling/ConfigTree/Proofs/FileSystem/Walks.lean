import ConfigTree.Proofs.FileSystem.Places

/-!
# Walks

A walk takes one step after the other (`walk_advance`), so a walk that ends
within a number of steps can be evaluated (`walk_of_walkWithin`).

Where no entry is a link, a walk is the walks of its steps one after the other
(`walk_append`), and one step stays, goes up to the directory above, or enters a
name of the directory it is in (`walk_step_cases`).
-/

namespace ConfigTree

namespace FileSystem

variable {files : FileSystem}

/-! ## Steps -/

/-- What one step of a walk does: the links that are left, the place, and the
steps of a link's target to take first. -/
def advance (files : FileSystem) (links : Nat) (place : Place) (step : String) :
    Except Obstacle (Nat × Place × List String) :=
  match files.at? place with
  | some (.directory _) =>
    if step = "" ∨ step = "." then .ok (links, place, [])
    else if step = ".." then .ok (links, place.tail, [])
    else if longestName < step.utf8ByteSize then .error .nameTooLong
    else
      match files.at? (step :: place) with
      | none => .error .notFound
      | some (.link target) =>
        match links with
        | 0 => .error .tooManyLinks
        | left + 1 => .ok (left, start place target, steps target)
      | some _ => .ok (links, step :: place, [])
  | some _ => .error .notDirectory
  | none => .error .notFound

theorem walk_advance
    (links : Nat) (place : Place) (step : String) (rest : List String) :
    files.walk links place (step :: rest) =
      (files.advance links place step).bind fun (left, next, before) =>
        files.walk left next (before ++ rest) := by
  rw [walk]
  unfold advance
  cases files.at? place with
  | none => rfl
  | some entry =>
      cases entry with
      | file _ | link _ | device => rfl
      | directory _ =>
          by_cases stays : step = "" ∨ step = "."
          · simp only [if_pos stays, Except.bind, List.nil_append]
          · by_cases climbs : step = ".."
            · simp only [if_neg stays, if_pos climbs, Except.bind,
                List.nil_append]
            · by_cases long : longestName < step.utf8ByteSize
              · simp only [if_neg stays, if_neg climbs, if_pos long,
                  Except.bind]
              · simp only [if_neg stays, if_neg climbs, if_neg long]
                cases files.at? (step :: place) with
                | none => rfl
                | some found =>
                    cases found with
                    | link target => cases links <;> rfl
                    | file _ | directory _ | device => rfl

/-- What a walk comes to, if it ends within so many steps. -/
def walkWithin (files : FileSystem) :
    Nat → Nat → Place → List String → Option (Except Obstacle Place)
  | _, _, place, [] => some (.ok place)
  | 0, _, _, _ :: _ => none
  | count + 1, links, place, step :: rest =>
    match files.advance links place step with
    | .error obstacle => some (.error obstacle)
    | .ok (left, next, before) =>
      files.walkWithin count left next (before ++ rest)

theorem walk_of_walkWithin :
    ∀ (count : Nat) {links : Nat} {place : Place} {way : List String}
      {reached : Except Obstacle Place},
      files.walkWithin count links place way = some reached →
        files.walk links place way = reached
  | 0, _, _, [], _, ended | _ + 1, _, _, [], _, ended => by
      rw [walk_nil]
      exact Option.some.inj ended
  | count + 1, links, place, step :: rest, reached, ended => by
      rw [walkWithin] at ended
      rw [walk_advance]
      cases advanced : files.advance links place step with
      | error obstacle =>
          rw [advanced] at ended
          exact Option.some.inj ended
      | ok stage =>
          rw [advanced] at ended
          exact walk_of_walkWithin count ended

/-! ## Steps without links -/

/-- No entry is a link. -/
def HasNoLinks (files : FileSystem) : Prop :=
  ∀ place ∈ files.places, (files.at? place).any Entry.isLink = false

instance (files : FileSystem) : Decidable files.HasNoLinks :=
  inferInstanceAs (Decidable (∀ place ∈ files.places, _))

private theorem HasNoLinks.ne_link
    (real : files.HasNoLinks)
    {place : Place}
    {entry : Entry}
    (present : files.at? place = some entry)
    (target : String) : entry ≠ .link target := by
  intro same
  have none := real place (mem_places present)
  rw [present, same] at none
  cases none

/-- One step of a walk, with no link to follow. -/
theorem walk_of_hasNoLinks
    (real : files.HasNoLinks)
    (links : Nat)
    (place : Place)
    (step : String)
    (rest : List String) :
    files.walk links place (step :: rest) =
      match files.at? place with
      | some (.directory _) =>
        if step = "" ∨ step = "." then files.walk links place rest
        else if step = ".." then files.walk links place.tail rest
        else if longestName < step.utf8ByteSize then .error .nameTooLong
        else if (files.at? (step :: place)).isSome then
          files.walk links (step :: place) rest
        else .error .notFound
      | some _ => .error .notDirectory
      | none => .error .notFound := by
  rw [walk]
  cases files.at? place with
  | none => rfl
  | some entry =>
    cases entry with
    | file _ | link _ | device => rfl
    | directory _ =>
      cases present : files.at? (step :: place) with
      | none => rfl
      | some found =>
        cases found with
        | link target => exact absurd rfl (real.ne_link present target)
        | file _ | directory _ | device => rfl

/-- What one step of a walk does where it succeeds. -/
theorem walk_step_cases
    (real : files.HasNoLinks) {links : Nat} {place next : Place} {step : String}
    (walked : files.walk links place [step] = .ok next) :
    (∃ children, files.at? place = some (.directory children)) ∧
      (((step = "" ∨ step = ".") ∧ next = place) ∨
        (step = ".." ∧ next = place.tail) ∨
        ((step ≠ "" ∧ step ≠ "." ∧ step ≠ "..") ∧ next = step :: place ∧
            ∃ entry, files.at? next = some entry)) := by
  rw [walk_of_hasNoLinks real] at walked
  split at walked
  case h_2 => cases walked
  case h_3 => cases walked
  case h_1 children inside =>
    refine ⟨⟨children, inside⟩, ?_⟩
    simp only [walk_nil] at walked
    split at walked
    case isTrue stays => exact Or.inl ⟨stays, (Except.ok.inj walked).symm⟩
    case isFalse moves =>
      obtain ⟨nonempty, notDot⟩ := not_or.mp moves
      split at walked
      case isTrue climbs =>
        exact Or.inr (Or.inl ⟨climbs, (Except.ok.inj walked).symm⟩)
      case isFalse notDots =>
        split at walked
        case isTrue => cases walked
        case isFalse =>
          split at walked
          case isFalse => cases walked
          case isTrue present =>
            obtain rfl := Except.ok.inj walked
            exact Or.inr
              (Or.inr
                ⟨⟨nonempty, notDot, notDots⟩, rfl,
                  Option.isSome_iff_exists.mp present⟩)

private theorem walk_cons
    (real : files.HasNoLinks)
    (links : Nat)
    (place : Place)
    (step : String)
    (rest : List String) :
    files.walk links place (step :: rest) =
      (files.walk links place [step]).bind fun next =>
        files.walk links next rest := by
  rw [walk_of_hasNoLinks real, walk_of_hasNoLinks real]
  split
  case h_1 =>
    simp only [walk_nil]
    repeat' split
    all_goals rfl
  case h_2 => rfl
  case h_3 => rfl

theorem walk_append
    (real : files.HasNoLinks) (links : Nat) :
    ∀ (way rest : List String) (place : Place),
      files.walk links place (way ++ rest) =
        (files.walk links place way).bind fun middle =>
          files.walk links middle rest
  | [], rest, place => by simp [Except.bind]
  | step :: way, rest, place => by
      rw [List.cons_append, walk_cons real, walk_cons real links place step way]
      cases files.walk links place [step] with
      | error obstacle => rfl
      | ok next => exact walk_append real links way rest next

theorem walk_append_eq_ok_iff
    (real : files.HasNoLinks)
    (links : Nat)
    (way rest : List String)
    (place target : Place) :
    files.walk links place (way ++ rest) = .ok target ↔
      ∃ middle,
        files.walk links place way = .ok middle ∧
        files.walk links middle rest = .ok target := by
  rw [walk_append real]
  cases files.walk links place way with
  | error obstacle => simp [Except.bind]
  | ok middle => simp [Except.bind]

end FileSystem

end ConfigTree
