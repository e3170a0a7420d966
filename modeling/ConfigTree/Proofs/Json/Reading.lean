import ConfigTree.Json.Value
import Mathlib.Data.List.TakeWhile

/-!
# Space behind JSON texts

A text reads as the same value with space behind it (`Value.ofText?_append`):
each reader stops where it stopped before, since no number goes on with space,
and what is left is still only space.
-/

namespace ConfigTree.Json

variable {tail : List Char}

/-! ## Space -/

private theorem skipSpace_append
    {text : List Char} (left : skipSpace text ≠ []) :
    skipSpace (text ++ tail) = skipSpace text ++ tail := by
  unfold skipSpace at left ⊢
  rw [List.dropWhile_append, List.isEmpty_eq_false_iff.mpr left,
    if_neg Bool.false_ne_true]

private theorem skipSpace_append_of_cons
    {text more : List Char} {c : Char} (skipped : skipSpace text = c :: more) :
    skipSpace (text ++ tail) = c :: (more ++ tail) := by
  rw [skipSpace_append (by simp [skipped]), skipped, List.cons_append]

/-! ## Strings -/

private theorem readPieces_append (tail : List Char) (text : List Char) :
    ∀ {pieces : List Piece} {rest : List Char},
      readPieces text = some (pieces, rest) →
        readPieces (text ++ tail) = some (pieces, rest ++ tail) := by
  fun_induction readPieces text with
  | case1 rest => rintro pieces rest' ⟨⟩; rfl
  | case2 a b c d rest a' b' c' d' later left read digitD digitC digitB digitA
    ih =>
      rintro pieces rest' ⟨⟩
      simp only [List.cons_append, readPieces, digitA, digitB, digitC, digitD,
        ih read]
  | case4 c rest noUnit escaped later left read short ih =>
    rintro pieces rest' ⟨⟩
    have other :
        ∀ (a b e d : Char) (more : List Char),
          c = 'u' → rest ++ tail = a :: b :: e :: d :: more → False := by
      rintro _ _ _ _ _ rfl
      cases short
    rw [List.cons_append, List.cons_append, readPieces.eq_3 _ _ other]
    simp only [short, ih read]
  | case7 c rest noQuote noUnit noEscape allowed ih =>
    intro pieces rest' read
    obtain ⟨⟨later, left⟩, read, same⟩ := Option.map_eq_some_iff.mp read
    cases same
    have noSlash : c ≠ '\\' := by
      rintro rfl
      exact allowed (by decide)
    rw [List.cons_append,
      readPieces.eq_4 _ _ noQuote (fun _ _ _ _ _ slash _ => noSlash slash)
        (fun _ _ slash _ => noSlash slash), if_neg allowed, ih read]
    rfl
  | case3 | case5 | case6 | case8 => rintro _ _ ⟨⟩

/-! ## Numbers -/

/-- What no number goes on with. -/
theorem space_of_head?
    (spaced : tail.all isSpace = true)
    {c : Char}
    (first : tail.head? = some c) :
    c.isDigit = false ∧ c ≠ '.' ∧ c ≠ 'e' ∧ c ≠ 'E' ∧ c ≠ '-' ∧ c ≠ '+' := by
  have space : isSpace c = true :=
    List.all_eq_true.mp spaced c (List.mem_of_mem_head? first)
  simp only [isSpace, Bool.or_eq_true, decide_eq_true_eq] at space
  rcases space with ((rfl | rfl) | rfl) | rfl <;> decide

private theorem takeDigits_append
    (spaced : tail.all isSpace = true) (text : List Char) :
    (text ++ tail).takeWhile Char.isDigit = text.takeWhile Char.isDigit := by
  induction text with
  | nil =>
    cases tail with
    | nil => rfl
    | cons c rest => simp [(space_of_head? spaced rfl).1]
  | cons c rest ih => simp only [List.cons_append, List.takeWhile_cons, ih]

private theorem dropDigits_append
    (spaced : tail.all isSpace = true) (text : List Char) :
    (text ++ tail).dropWhile Char.isDigit =
      text.dropWhile Char.isDigit ++ tail := by
  induction text with
  | nil =>
    cases tail with
    | nil => rfl
    | cons c rest => simp [(space_of_head? spaced rfl).1]
  | cons c rest ih =>
    simp only [List.cons_append, List.dropWhile_cons, ih]
    split <;> rfl

private theorem readFraction_append
    (spaced : tail.all isSpace = true) {text digits rest : List Char}
    (read : readFraction text = some (digits, rest)) :
    readFraction (text ++ tail) = some (digits, rest ++ tail) := by
  unfold readFraction at read
  split at read
  case h_1 more =>
    rw [List.cons_append, readFraction, takeDigits_append spaced,
      dropDigits_append spaced]
    dsimp only at read ⊢
    split at read
    case isTrue => cases read
    case isFalse digits =>
      cases read
      rw [if_neg digits]
  case h_2 noPoint =>
    cases read
    refine readFraction.eq_2 _ fun more point => ?_
    cases text with
    | nil => exact (space_of_head? spaced (congrArg List.head? point)).2.1 rfl
    | cons c later =>
        exact noPoint later (congrArg (· :: later) (List.cons.inj point).1)

private theorem splitSign_of_head?
    {text : List Char}
    (unsigned : ∀ c, text.head? = some c → c ≠ '-' ∧ c ≠ '+') :
    Double.splitSign text = (false, text) :=
  Double.splitSign.eq_3 text
    (fun _ minus => (unsigned '-' (congrArg List.head? minus)).1 rfl)
    (fun _ plus => (unsigned '+' (congrArg List.head? plus)).2 rfl)

private theorem splitSign_append
    (spaced : tail.all isSpace = true) (text : List Char) :
    Double.splitSign (text ++ tail) =
      ((Double.splitSign text).1, (Double.splitSign text).2 ++ tail) := by
  cases text with
  | nil =>
      exact
        splitSign_of_head? fun c first => (space_of_head? spaced first).2.2.2.2
  | cons c rest =>
    by_cases minus : c = '-'
    · subst minus
      rfl
    · by_cases plus : c = '+'
      · subst plus
        rfl
      · have unsigned :
            ∀ more d, (c :: more).head? = some d → d ≠ '-' ∧ d ≠ '+' := by
          rintro more d ⟨⟩
          exact ⟨minus, plus⟩
        rw [splitSign_of_head? (unsigned rest), List.cons_append,
          splitSign_of_head? (unsigned (rest ++ tail))]

private theorem readExponent_cons (c : Char) (rest : List Char) :
    readExponent (c :: rest) =
      if c = 'e' ∨ c = 'E' then
        if ((Double.splitSign rest).2.takeWhile Char.isDigit).isEmpty then none
        else
          some (some ((Double.splitSign rest).1,
              (Double.splitSign rest).2.takeWhile Char.isDigit),
            (Double.splitSign rest).2.dropWhile Char.isDigit)
      else some (none, c :: rest) := by
  simp only [readExponent, Bool.or_eq_true, decide_eq_true_eq]
  rfl

private theorem readExponent_append
    (spaced : tail.all isSpace = true)
    {text rest : List Char}
    {exponent : Option (Bool × List Char)}
    (read : readExponent text = some (exponent, rest)) :
    readExponent (text ++ tail) = some (exponent, rest ++ tail) := by
  cases text with
  | nil =>
    cases read
    cases tail with
    | nil => rfl
    | cons c rest =>
      obtain ⟨-, -, notSmall, notGreat, -⟩ := space_of_head? spaced rfl
      rw [List.nil_append, readExponent_cons,
        if_neg (by simp [notSmall, notGreat])]
  | cons c more =>
    rw [readExponent_cons] at read
    rw [List.cons_append, readExponent_cons, splitSign_append spaced,
      takeDigits_append spaced, dropDigits_append spaced]
    split at read
    case isFalse other =>
      cases read
      rw [if_neg other, List.cons_append]
    case isTrue starts =>
      rw [if_pos starts]
      split at read
      case isTrue => cases read
      case isFalse digits =>
        cases read
        rw [if_neg digits]

private theorem readUnsigned_append
    (spaced : tail.all isSpace = true)
    {negative : Bool}
    {text rest : List Char}
    {numeral : Numeral}
    (read : readUnsigned negative text = some (numeral, rest)) :
    readUnsigned negative (text ++ tail) = some (numeral, rest ++ tail) := by
  unfold readUnsigned at read ⊢
  rw [takeDigits_append spaced, dropDigits_append spaced]
  dsimp only at read ⊢
  split at read
  case isTrue => cases read
  case isFalse whole =>
    rw [if_neg whole]
    obtain ⟨⟨fraction, more⟩, readF, read⟩ := Option.bind_eq_some_iff.mp read
    obtain ⟨⟨exponent, more'⟩, readE, read⟩ := Option.bind_eq_some_iff.mp read
    cases read
    rw [readFraction_append spaced readF, Option.bind_eq_bind, Option.bind_some]
    dsimp only
    rw [readExponent_append spaced readE]
    rfl

private theorem readNumeral_append
    (spaced : tail.all isSpace = true)
    {text rest : List Char}
    {numeral : Numeral}
    (read : readNumeral text = some (numeral, rest)) :
    readNumeral (text ++ tail) = some (numeral, rest ++ tail) := by
  unfold readNumeral at read
  split at read
  case h_1 digits => exact readUnsigned_append spaced read
  case h_2 unsigned =>
    rw [readNumeral.eq_2, readUnsigned_append spaced read]
    intro digits minus
    cases text with
    | nil =>
        exact (space_of_head? spaced (congrArg List.head? minus)).2.2.2.2.1 rfl
    | cons c more =>
        exact unsigned more (congrArg (· :: more) (List.cons.inj minus).1)

private theorem head_of_readNumeral
    {text rest : List Char}
    {numeral : Numeral}
    (read : readNumeral text = some (numeral, rest)) :
    ∃ c more, text = c :: more ∧ (c = '-' ∨ c.isDigit = true) := by
  unfold readNumeral at read
  split at read
  case h_1 digits => exact ⟨'-', digits, rfl, Or.inl rfl⟩
  case h_2 =>
    cases text with
    | nil => cases read
    | cons c more =>
      by_cases digit : c.isDigit = true
      · exact ⟨c, more, rfl, Or.inr digit⟩
      · rw [readUnsigned, List.takeWhile_cons_of_neg digit] at read
        cases read

/-! ## Values -/

/-- Up to the given depth, the readers stop in front of the tail as they stop at
the end. -/
structure StopsBefore (tail : List Char) (depth : Nat) : Prop where
  value :
    ∀ {text rest : List Char} {value : Syntax},
      readValue depth text = some (value, rest) →
        ∀ deeper,
          depth ≤ deeper →
            readValue deeper (text ++ tail) = some (value, rest ++ tail)
  items :
    ∀ {text rest : List Char} {items : List Syntax},
      readItems depth text = some (items, rest) →
        ∀ deeper,
          depth ≤ deeper →
            readItems deeper (text ++ tail) = some (items, rest ++ tail)
  members : ∀ {text rest : List Char} {members : List (List Piece × Syntax)},
    readMembers depth text = some (members, rest) →
      ∀ deeper,
        depth ≤ deeper →
          readMembers deeper (text ++ tail) = some (members, rest ++ tail)

private theorem readValue_of_readNumeral
    {text rest : List Char}
    {numeral : Numeral}
    (read : readNumeral text = some (numeral, rest))
    (depth : Nat) :
    readValue (depth + 1) text = some (.number numeral, rest) := by
  obtain ⟨c, more, rfl, starts⟩ := head_of_readNumeral read
  have differs :
      ∀ {d : Char} {later : List Char},
        d ≠ '-' → d.isDigit = false → c :: more = d :: later → False := by
    rintro d later notMinus notDigit ⟨⟩
    rcases starts with minus | digit
    · exact notMinus minus
    · rw [notDigit] at digit
      cases digit
  rw [readValue.eq_8 _ _ (fun _ => differs (by decide) rfl)
      (fun _ => differs (by decide) rfl) (fun _ => differs (by decide) rfl)
      (fun _ => differs (by decide) rfl) (fun _ => differs (by decide) rfl)
      (fun _ => differs (by decide) rfl), read]
  rfl

@[simp]
theorem readValue_nil (depth : Nat) : readValue depth [] = none := by
  cases depth <;> rfl

@[simp]
theorem readItems_nil (depth : Nat) : readItems depth [] = none := by
  cases depth with
  | zero => rfl
  | succ depth => rw [readItems, readValue_nil]

@[simp]
theorem readMembers_nil (depth : Nat) : readMembers depth [] = none := by
  cases depth <;> rfl

/-- A reader that makes nothing of the empty text has read some other. -/
theorem ne_nil_of_read
    {α : Type}
    {reader : List Char → Option α}
    (fails : reader [] = none)
    {text : List Char}
    {found : α}
    (read : reader text = some found) : text ≠ [] := by
  rintro rfl
  rw [fails] at read
  cases read

private theorem readItems_append
    {depth : Nat}
    (stops : StopsBefore tail depth)
    {text rest : List Char}
    {items : List Syntax}
    (read : readItems (depth + 1) text = some (items, rest))
    {deeper : Nat}
    (within : depth ≤ deeper) :
    readItems (deeper + 1) (text ++ tail) = some (items, rest ++ tail) := by
  rw [readItems] at read ⊢
  split at read
  case h_1 => cases read
  case h_2 item more readItem =>
    rw [stops.value readItem deeper within]
    dsimp only
    split at read
    case h_1 later skipped =>
      obtain ⟨⟨following, left⟩, readRest, same⟩ :=
        Option.map_eq_some_iff.mp read
      cases same
      have goesOn : skipSpace later ≠ [] :=
        ne_nil_of_read (readItems_nil _) readRest
      simp only [skipSpace_append_of_cons skipped, skipSpace_append goesOn,
        stops.items readRest deeper within, Option.map_some]
    case h_2 later skipped =>
      cases read
      rw [skipSpace_append_of_cons skipped]
      rfl
    case h_3 => cases read

private theorem readMembers_append
    {depth : Nat}
    (stops : StopsBefore tail depth)
    {text rest : List Char}
    {members : List (List Piece × Syntax)}
    (read : readMembers (depth + 1) text = some (members, rest))
    {deeper : Nat}
    (within : depth ≤ deeper) :
    readMembers (deeper + 1) (text ++ tail) = some (members, rest ++ tail) := by
  unfold readMembers at read
  split at read
  case h_2 => cases read
  case h_1 quoted =>
    rw [List.cons_append, readMembers]
    split at read
    case h_1 => cases read
    case h_2 key more readKey =>
      rw [readPieces_append tail quoted readKey]
      dsimp only
      split at read
      case h_2 => cases read
      case h_1 behind skipped =>
        split at read
        case h_1 => cases read
        case h_2 value later readItem =>
          have goesOn : skipSpace behind ≠ [] :=
            ne_nil_of_read (readValue_nil _) readItem
          simp only [skipSpace_append_of_cons skipped, skipSpace_append goesOn,
            stops.value readItem deeper within]
          split at read
          case h_1 next comma =>
            obtain ⟨⟨following, left⟩, readRest, same⟩ :=
              Option.map_eq_some_iff.mp read
            cases same
            have goesOn : skipSpace next ≠ [] :=
              ne_nil_of_read (readMembers_nil _) readRest
            simp only [skipSpace_append_of_cons comma, skipSpace_append goesOn,
              stops.members readRest deeper within, Option.map_some]
          case h_2 next brace =>
            cases read
            rw [skipSpace_append_of_cons brace]
            rfl
          case h_3 => cases read

private theorem starts_of_append
    {text more : List Char}
    {c : Char}
    (goesOn : text ≠ [])
    (starts : text ++ tail = c :: more) :
    ∃ later, text = c :: later := by
  cases text with
  | nil => exact absurd rfl goesOn
  | cons d later =>
      exact ⟨later, congrArg (· :: later) (List.cons.inj starts).1⟩

private theorem readValue_append
    (spaced : tail.all isSpace = true)
    {depth : Nat}
    (stops : StopsBefore tail depth)
    {text rest : List Char}
    {value : Syntax}
    (read : readValue (depth + 1) text = some (value, rest))
    {deeper : Nat}
    (within : depth ≤ deeper) :
    readValue (deeper + 1) (text ++ tail) = some (value, rest ++ tail) := by
  unfold readValue at read
  split at read
  case h_1 | h_2 | h_3 =>
    cases read
    rfl
  case h_4 quoted =>
    obtain ⟨⟨pieces, left⟩, readText, same⟩ := Option.map_eq_some_iff.mp read
    cases same
    rw [List.cons_append, readValue, readPieces_append tail quoted readText]
    rfl
  case h_5 inside =>
    rw [List.cons_append, readValue]
    split at read
    case h_1 left skipped =>
      cases read
      rw [skipSpace_append_of_cons skipped]
      rfl
    case h_2 notEmpty =>
      obtain ⟨⟨items, left⟩, readRest, same⟩ := Option.map_eq_some_iff.mp read
      cases same
      have goesOn : skipSpace inside ≠ [] :=
        ne_nil_of_read (readItems_nil _) readRest
      rw [skipSpace_append goesOn]
      split
      case h_1 after bracket =>
        obtain ⟨later, starts⟩ := starts_of_append goesOn bracket
        exact (notEmpty later starts).elim
      case h_2 => rw [stops.items readRest deeper within, Option.map_some]
  case h_6 inside =>
    rw [List.cons_append, readValue]
    split at read
    case h_1 left skipped =>
      cases read
      rw [skipSpace_append_of_cons skipped]
      rfl
    case h_2 notEmpty =>
      obtain ⟨⟨members, left⟩, readRest, same⟩ := Option.map_eq_some_iff.mp read
      cases same
      have goesOn : skipSpace inside ≠ [] :=
        ne_nil_of_read (readMembers_nil _) readRest
      rw [skipSpace_append goesOn]
      split
      case h_1 after brace =>
        obtain ⟨later, starts⟩ := starts_of_append goesOn brace
        exact (notEmpty later starts).elim
      case h_2 => rw [stops.members readRest deeper within, Option.map_some]
  case h_7 =>
    obtain ⟨⟨numeral, left⟩, readNumber, same⟩ := Option.map_eq_some_iff.mp read
    cases same
    exact readValue_of_readNumeral (readNumeral_append spaced readNumber) deeper

private theorem stopsBefore
    (spaced : tail.all isSpace = true) (depth : Nat) :
    StopsBefore tail depth := by
  induction depth with
  | zero =>
      exact ⟨fun read => (nomatch read), fun read => (nomatch read),
        fun read => (nomatch read)⟩
  | succ depth stops =>
    constructor <;> intro _ _ _ read deeper within <;> cases deeper with
    | zero => omega
    | succ deeper => ?_
    · exact readValue_append spaced stops read (by omega)
    · exact readItems_append stops read (by omega)
    · exact readMembers_append stops read (by omega)

/-! ## Texts -/

private theorem Syntax.ofText?_append
    {text space : String}
    {value : Syntax}
    (spaced : space.toList.all isSpace = true)
    (read : Syntax.ofText? text = some value) :
    Syntax.ofText? (text ++ space) = some value := by
  unfold Syntax.ofText? at read ⊢
  dsimp only at read ⊢
  split at read
  case h_2 => cases read
  case h_1 written rest readWritten =>
    have goesOn : skipSpace text.toList ≠ [] :=
      ne_nil_of_read (readValue_nil _) readWritten
    split at read
    case isFalse => cases read
    case isTrue ends =>
      cases read
      rw [String.toList_append, skipSpace_append goesOn,
        (stopsBefore spaced _).value readWritten _
          (by rw [List.length_append]; omega)]
      have spaces : skipSpace (rest ++ space.toList) = [] := by
        have before : rest.dropWhile isSpace = [] := List.isEmpty_iff.mp ends
        have behind : space.toList.dropWhile isSpace = [] :=
          List.dropWhile_eq_nil_iff.mpr (List.all_eq_true.mp spaced)
        rw [skipSpace, List.dropWhile_append, before, behind]
        rfl
      exact if_pos (by rw [spaces]; rfl)

/-- A text reads as the same value with space behind it. -/
theorem Value.ofText?_append
    {text space : String}
    {value : Value}
    (spaced : space.toList.all isSpace = true)
    (read : Value.ofText? text = some value) :
    Value.ofText? (text ++ space) = some value := by
  obtain ⟨written, readSyntax, means⟩ := Option.bind_eq_some_iff.mp read
  exact Option.bind_eq_some_iff.mpr
    ⟨written, Syntax.ofText?_append spaced readSyntax, means⟩

end ConfigTree.Json
