/-!
# Dates and times

A date, a time of day, or both, the latter with or without an offset. Reading
checks the calendar; fractions of a second are kept to nine digits and written
without zeros at their end.
-/

namespace ConfigTree.Toml

structure Date where
  year : Nat
  month : Nat
  day : Nat
deriving DecidableEq, Repr

structure Time where
  hour : Nat
  minute : Nat
  second : Nat
  nanosecond : Nat
deriving DecidableEq, Repr

inductive Offset where
  | utc
  | minutes (east : Int)
deriving DecidableEq, Repr

inductive Datetime where
  | date (date : Date)
  | time (time : Time)
  | both (date : Date) (time : Time) (offset : Option Offset)
deriving DecidableEq, Repr

/-! ## Reading -/

/-- A number of exactly `count` digits. -/
def readDigits (count : Nat) (text : List Char) : Option (Nat × List Char) :=
  let digits := text.take count
  if digits.length = count && digits.all Char.isDigit then
    some (digits.foldl (fun n digit => 10 * n + (digit.toNat - '0'.toNat)) 0,
      text.drop count)
  else none

def readMark (mark : Char) : List Char → Option (List Char)
  | c :: rest => if c = mark then some rest else none
  | [] => none

def isLeapYear (year : Nat) : Bool :=
  year % 4 = 0 && (year % 100 ≠ 0 || year % 400 = 0)

def daysIn (year month : Nat) : Nat :=
  if month = 2 then if isLeapYear year then 29 else 28
  else if month = 4 || month = 6 || month = 9 || month = 11 then 30
  else 31

def readDate (text : List Char) : Option (Date × List Char) := do
  let (year, rest) ← readDigits 4 text
  let rest ← readMark '-' rest
  let (month, rest) ← readDigits 2 rest
  let rest ← readMark '-' rest
  let (day, rest) ← readDigits 2 rest
  if 1 ≤ month && month ≤ 12 && 1 ≤ day && day ≤ daysIn year month then
    some (⟨year, month, day⟩, rest)
  else
    none

/-- The digits behind a point as billionths; digits beyond the ninth do not
count. -/
def readFractionOfSecond : List Char → Option (Nat × List Char)
  | '.' :: rest =>
    let digits := rest.takeWhile Char.isDigit
    let nine := (digits ++ List.replicate 9 '0').take 9
    if digits.isEmpty then none
    else
      some (nine.foldl (fun n digit => 10 * n + (digit.toNat - '0'.toNat)) 0,
        rest.dropWhile Char.isDigit)
  | rest => some (0, rest)

def readTime (text : List Char) : Option (Time × List Char) := do
  let (hour, rest) ← readDigits 2 text
  let rest ← readMark ':' rest
  let (minute, rest) ← readDigits 2 rest
  let rest ← readMark ':' rest
  let (second, rest) ← readDigits 2 rest
  let (nanosecond, rest) ← readFractionOfSecond rest
  if hour ≤ 23 && minute ≤ 59 && second ≤ 60 then
    some (⟨hour, minute, second, nanosecond⟩, rest)
  else
    none

/-- The offset that a text starts with, if it starts with one. -/
def readOffset : List Char → Option (Option Offset × List Char)
  | c :: rest =>
    if c = 'Z' || c = 'z' then some (some .utc, rest)
    else if c = '+' || c = '-' then do
      let (hours, rest) ← readDigits 2 rest
      let rest ← readMark ':' rest
      let (minutes, rest) ← readDigits 2 rest
      if hours ≤ 23 && minutes ≤ 59 then
        let east : Int := hours * 60 + minutes
        some (some (.minutes (if c = '-' then -east else east)), rest)
      else none
    else some (none, c :: rest)
  | [] => some (none, [])

/-- A date goes on with a time only if a `T` or a blank is followed by one. -/
def readDatetime (text : List Char) : Option (Datetime × List Char) :=
  match readDate text with
  | some (date, mark :: rest) =>
    if mark = 'T' || mark = 't' || mark = ' ' then
      match readTime rest with
      | some (time, rest) =>
          (readOffset rest).map fun (offset, rest) =>
            (.both date time offset, rest)
      | none => some (.date date, mark :: rest)
    else some (.date date, mark :: rest)
  | some (date, []) => some (.date date, [])
  | none => (readTime text).map fun (time, rest) => (.time time, rest)

/-! ## Writing -/

/-- A number with zeros in front up to a width. -/
def padded (width n : Nat) : String :=
  let digits := Nat.toDigits 10 n
  String.ofList (List.replicate (width - digits.length) '0' ++ digits)

def Date.text (date : Date) : String :=
  padded 4 date.year ++ "-" ++ padded 2 date.month ++ "-" ++ padded 2 date.day

def Time.text (time : Time) : String :=
  let clock :=
    padded 2 time.hour ++ ":" ++ padded 2 time.minute ++ ":" ++
      padded 2 time.second
  if time.nanosecond = 0 then clock
  else
    let digits := (padded 9 time.nanosecond).toList.reverse.dropWhile (· = '0')
    clock ++ "." ++ String.ofList digits.reverse

def Offset.text : Offset → String
  | .utc => "Z"
  | .minutes east =>
    (if east < 0 then "-" else "+") ++ padded 2 (east.natAbs / 60) ++ ":" ++
      padded 2 (east.natAbs % 60)

def Datetime.text : Datetime → String
  | .date day => day.text
  | .time clock => clock.text
  | .both day clock none => day.text ++ "T" ++ clock.text
  | .both day clock (some offset) =>
      day.text ++ "T" ++ clock.text ++ offset.text

end ConfigTree.Toml
