namespace Callout.Toml

/-- A day of the calendar. -/
structure Date where
  year : Nat
  month : Nat
  day : Nat
  deriving DecidableEq, Repr

/-- A time of day, to the microsecond. -/
structure Clock where
  hour : Nat
  minute : Nat
  second : Nat
  micro : Nat
  deriving DecidableEq, Repr

/-- A date, a time, or both, then maybe with an offset from universal time in minutes. -/
inductive Moment where
  | date (date : Date)
  | time (clock : Clock)
  | dateTime (date : Date) (clock : Clock) (offset : Option Int)
  deriving DecidableEq, Repr

def isLeap (year : Nat) : Bool :=
  year % 4 == 0 && (year % 100 != 0 || year % 400 == 0)

def monthDays (year month : Nat) : Nat :=
  if month = 2 then if isLeap year then 29 else 28
  else if month = 4 ∨ month = 6 ∨ month = 9 ∨ month = 11 then 30
  else 31

/-- Whether a date is one of the calendar, which begins with the year one. -/
def Date.isValid (d : Date) : Bool :=
  0 < d.year && 0 < d.month && d.month ≤ 12 && 0 < d.day && d.day ≤ monthDays d.year d.month

def padded (width n : Nat) : List Char :=
  let digits := Nat.toDigits 10 n
  List.replicate (width - digits.length) '0' ++ digits

namespace Date

/-- A date as `1979-05-27`. -/
def iso (d : Date) : List Char :=
  padded 4 d.year ++ '-' :: padded 2 d.month ++ '-' :: padded 2 d.day

end Date

namespace Clock

/-- A time as `07:32:00`, with six places if it has a part of a second. -/
def iso (c : Clock) : List Char :=
  padded 2 c.hour ++ ':' :: padded 2 c.minute ++ ':' :: padded 2 c.second ++
    if c.micro = 0 then [] else '.' :: padded 6 c.micro

/-- The numbers of a time, without those at the end that are zero and may be left out. -/
def parts (c : Clock) : List Nat :=
  if c.micro ≠ 0 then [c.hour, c.minute, c.second, c.micro]
  else if c.second ≠ 0 then [c.hour, c.minute, c.second]
  else [c.hour, c.minute]

end Clock

/-- An offset as `+01:00`. -/
def isoOffset (minutes : Int) : List Char :=
  let n := minutes.natAbs
  (if minutes < 0 then '-' else '+') :: padded 2 (n / 60) ++ ':' :: padded 2 (n % 60)

def commaSeparated (numbers : List Nat) : String :=
  ", ".intercalate (numbers.map toString)

/-- An offset as messages show it: whole days first, so that the seconds are never negative. -/
def offsetLiteral (minutes : Int) : String :=
  if minutes = 0 then "datetime.timezone.utc"
  else
    let days := Int.fdiv minutes 1440
    let seconds := 60 * Int.fmod minutes 1440
    let dayPart := if days = 0 then "" else s!"days={days}, "
    s!"datetime.timezone(datetime.timedelta({dayPart}seconds={seconds}))"

namespace Moment

/-- A moment in the notation of ISO 8601. -/
def iso : Moment → List Char
  | date d => d.iso
  | time c => c.iso
  | dateTime d c offset => d.iso ++ 'T' :: c.iso ++ offset.elim [] isoOffset

def literal : Moment → String
  | date d => s!"datetime.date({commaSeparated [d.year, d.month, d.day]})"
  | time c => s!"datetime.time({commaSeparated c.parts})"
  | dateTime d c offset =>
    let parts := commaSeparated ([d.year, d.month, d.day] ++ c.parts)
    let zone := offset.elim "" fun minutes => s!", tzinfo={offsetLiteral minutes}"
    s!"datetime.datetime({parts}{zone})"

end Moment

end Callout.Toml
