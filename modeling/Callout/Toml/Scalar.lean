import Callout.Text.Numeral
import Callout.Toml.Document

namespace Callout.Toml

/-- Digits that satisfy `ok`, single underscores between them dropped. -/
def digitRun (ok : Char → Bool) : List Char → List Char × List Char
  | [] => ([], [])
  | c :: rest =>
    if ok c then
      let (digits, after) := digitRun ok rest
      (c :: digits, after)
    else if c = '_' then
      match rest with
      | d :: rest =>
        if ok d then
          let (digits, after) := digitRun ok rest
          (d :: digits, after)
        else ([], c :: d :: rest)
      | [] => ([], [c])
    else ([], c :: rest)

/-- A run of digits that begins with a digit. -/
def digits? (ok : Char → Bool) : List Char → Option (List Char × List Char)
  | c :: rest => if ok c then some (digitRun ok (c :: rest)) else none
  | [] => none

def isDecimal (c : Char) : Bool := '0' ≤ c && c ≤ '9'

/-- The value of a digit or letter in hexadecimal notation. -/
def digitValue (c : Char) : Nat :=
  if isDecimal c then c.toNat - '0'.toNat
  else if 'a' ≤ c && c ≤ 'f' then c.toNat - 'a'.toNat + 10
  else c.toNat - 'A'.toNat + 10

def isHexadecimal (c : Char) : Bool :=
  isDecimal c || ('a' ≤ c && c ≤ 'f') || ('A' ≤ c && c ≤ 'F')

def natural (base : Nat) (digits : List Char) : Nat :=
  Text.ofDigits base (digits.map digitValue)

/-- A whole number in hexadecimal, octal or binary notation. -/
def radixInteger? : List Char → Option (Nat × List Char)
  | '0' :: mark :: rest => do
    let (base, ok) ← match mark with
      | 'x' => some (16, isHexadecimal)
      | 'o' => some (8, fun c => decide ('0' ≤ c ∧ c ≤ '7'))
      | 'b' => some (2, fun c => c == '0' || c == '1')
      | _ => none
    let (digits, after) ← digits? ok rest
    return (natural base digits, after)
  | _ => none

/-- The whole part of a decimal number: zero, or digits that do not begin with zero. -/
def wholePart? : List Char → Option (List Char × List Char)
  | '0' :: rest => some (['0'], rest)
  | text => digits? isDecimal text

/-- The part of a decimal number after its point; empty if there is none. -/
def fractionPart (text : List Char) : List Char × List Char :=
  match text with
  | '.' :: rest => (digits? isDecimal rest).getD ([], text)
  | _ => ([], text)

def signOf : List Char → Bool × List Char
  | '-' :: rest => (true, rest)
  | '+' :: rest => (false, rest)
  | text => (false, text)

/-- The exponent of a decimal number, if there is one. -/
def exponentPart (text : List Char) : Option Int × List Char :=
  match text with
  | c :: rest =>
    if c = 'e' ∨ c = 'E' then
      let (negative, unsigned) := signOf rest
      match digits? isDecimal unsigned with
      | some (digits, after) =>
        let n : Int := natural 10 digits
        (some (if negative then -n else n), after)
      | none => (none, text)
    else (none, text)
  | [] => (none, text)

/-- A decimal number: whole without point and exponent, else floating. Whole numbers of too many
digits are refused. -/
def decimal? (text : List Char) : Option (Except Fault Value × List Char) := do
  let (negative, unsigned) := signOf text
  let (whole, afterWhole) ← wholePart? unsigned
  let (fraction, afterFraction) := fractionPart afterWhole
  let (exponent, rest) := exponentPart afterFraction
  if fraction.isEmpty && exponent.isNone then
    let n : Int := natural 10 whole
    let value : Except Fault Value :=
      if Text.maxDigits < whole.length then .error (.tooManyDigits whole.length)
      else .ok (.integer (if negative then -n else n))
    return (value, rest)
  else
    let value :=
      Binary64.ofDecimal negative (natural 10 (whole ++ fraction))
        (exponent.getD 0 - fraction.length)
    return (.ok (.float value), rest)

/-- Infinity, or what is not a number, by name. -/
def specialFloat? (text : List Char) : Option (Value × List Char) :=
  let (negative, unsigned) := signOf text
  match unsigned with
  | 'i' :: 'n' :: 'f' :: rest => some (.float (.infinite negative), rest)
  | 'n' :: 'a' :: 'n' :: rest => some (.float .nan, rest)
  | _ => none

def fixedDigits? (count : Nat) (text : List Char) : Option (Nat × List Char) :=
  let digits := text.take count
  if digits.length = count ∧ digits.all isDecimal then
    some (natural 10 digits, text.drop count)
  else none

/-- A number of two digits from `low` to `high`. -/
def pair? (low high : Nat) (text : List Char) : Option (Nat × List Char) :=
  (fixedDigits? 2 text).filter fun r => low ≤ r.1 && r.1 ≤ high

def after? (c : Char) : List Char → Option (List Char)
  | d :: rest => if c = d then some rest else none
  | [] => none

/-- A date, whose day is not yet compared with its month. -/
def date? (text : List Char) : Option (Date × List Char) := do
  let (year, text) ← fixedDigits? 4 text
  let (month, text) ← pair? 1 12 (← after? '-' text)
  let (day, text) ← pair? 1 31 (← after? '-' text)
  return (⟨year, month, day⟩, text)

/-- The microseconds that the digits after a point stand for; further digits are dropped. -/
def micros (digits : List Char) : Nat :=
  natural 10 (digits.take 6 ++ List.replicate (6 - digits.length) '0')

def clock? (text : List Char) : Option (Clock × List Char) := do
  let (hour, text) ← pair? 0 23 text
  let (minute, text) ← pair? 0 59 (← after? ':' text)
  let (second, text) ← pair? 0 59 (← after? ':' text)
  match text with
  | '.' :: rest =>
    let digits := rest.takeWhile isDecimal
    if digits.isEmpty then return (⟨hour, minute, second, 0⟩, text)
    else return (⟨hour, minute, second, micros digits⟩, rest.dropWhile isDecimal)
  | _ => return (⟨hour, minute, second, 0⟩, text)

def offsetMinutes? (text : List Char) : Option (Int × List Char) := do
  let (hours, text) ← pair? 0 23 text
  let (minutes, text) ← pair? 0 59 (← after? ':' text)
  return (60 * hours + minutes, text)

def offsetPart (text : List Char) : Option Int × List Char :=
  match text with
  | 'Z' :: rest | 'z' :: rest => (some 0, rest)
  | '+' :: rest => ((offsetMinutes? rest).map fun r => (some r.1, r.2)).getD (none, text)
  | '-' :: rest => ((offsetMinutes? rest).map fun r => (some (-r.1), r.2)).getD (none, text)
  | _ => (none, text)

def dateTime? (text : List Char) : Option (Moment × Date × List Char) := do
  let (date, text) ← date? text
  let timed : Option (Moment × List Char) :=
    match text with
    | c :: rest =>
      if c = 'T' ∨ c = 't' ∨ c = ' ' then
        (clock? rest).map fun (clock, rest) =>
          let (offset, rest) := offsetPart rest
          (.dateTime date clock offset, rest)
      else none
    | [] => none
  let (moment, rest) := timed.getD (.date date, text)
  return (moment, date, rest)

/-- A value that is no text, array or table. -/
def scalar (text : List Char) : Except Fault (Value × List Char) :=
  match text with
  | 't' :: 'r' :: 'u' :: 'e' :: rest => .ok (.boolean true, rest)
  | 'f' :: 'a' :: 'l' :: 's' :: 'e' :: rest => .ok (.boolean false, rest)
  | _ =>
    match dateTime? text with
    | some (moment, date, rest) =>
      if date.isValid then .ok (.moment moment, rest) else .error .malformed
    | none =>
      match clock? text with
      | some (clock, rest) => .ok (.moment (.time clock), rest)
      | none =>
        match radixInteger? text with
        | some (n, rest) => .ok (.integer n, rest)
        | none =>
          match decimal? text with
          | some (value, rest) => value.map fun v => (v, rest)
          | none =>
            match specialFloat? text with
            | some found => .ok found
            | none => .error .malformed

end Callout.Toml
