import Callout.Decimal.Binary64

namespace Callout.Decimal

/-- The decimal numbers that round to a positive finite one, in quarters of its last place: from
`low` to `high`, whose ends belong to them when `closed` holds. All are in units of
`2 ^ exponent`. -/
structure Interval where
  low : Nat
  value : Nat
  high : Nat
  closed : Bool
  exponent : Int

/-- The interval of a number. Below the least mantissa numbers are twice as dense. -/
def Interval.ofBinary (mantissa : Nat) (exponent : Int) : Interval where
  low := if mantissa = Nat.pow 2 52 ∧ -1074 < exponent then 4 * mantissa - 1 else 4 * mantissa - 2
  value := 4 * mantissa
  high := 4 * mantissa + 2
  closed := mantissa % 2 = 0
  exponent := exponent - 2

/-- A decimal number `digits * 10 ^ exponent`. -/
structure Number where
  digits : Nat
  exponent : Int

/-- Numbers `n * 2 ^ twos` and `d * 10 ^ tens` brought to one scale. -/
def align (n : Nat) (twos : Int) (d : Nat) (tens : Int) : Nat × Nat :=
  (n * Nat.pow 2 twos.toNat * Nat.pow 10 (-tens).toNat,
    d * Nat.pow 10 tens.toNat * Nat.pow 2 (-twos).toNat)

/-- Whether a decimal number rounds to the number of an interval. -/
def Interval.holds (i : Interval) (x : Number) : Bool :=
  let (low, atLow) := align i.low i.exponent x.digits x.exponent
  let (high, atHigh) := align i.high i.exponent x.digits x.exponent
  if i.closed then low ≤ atLow && atHigh ≤ high else low < atLow && atHigh < high

def digitCount (n : Nat) : Nat :=
  (Nat.toDigits 10 n).length

/-- The greatest `k` with `10 ^ k ≤ num / den`, for positive `num` and `den`. -/
def decimalLog (num den : Nat) : Int :=
  if den ≤ num then digitCount (num / den) - 1
  else -(digitCount ((den + num - 1) / num - 1) : Int)

/-- Of the two neighbours on the grid of `10 ^ exponent`, the nearest that reads back as the
number; of two at one distance the even one. -/
def Interval.onGrid (i : Interval) (exponent : Int) : Option Number :=
  let (value, unit) := align i.value i.exponent 1 exponent
  let below : Number := ⟨value / unit, exponent⟩
  let above : Number := ⟨value / unit + 1, exponent⟩
  let rest := value % unit
  let belowFirst := 2 * rest < unit || (2 * rest == unit && below.digits % 2 == 0)
  let order := if belowFirst then [below, above] else [above, below]
  order.find? fun x => x.digits != 0 && i.holds x

/-- The digits of the shortest decimal that reads back, as a whole number and a power of ten. -/
def shortest (mantissa : Nat) (exponent : Int) : Number :=
  let i := Interval.ofBinary mantissa exponent
  let (num, den) := align i.value i.exponent 1 0
  let top := decimalLog num den
  let grids := (List.range 17).map fun (n : Nat) => top - n
  (grids.findSome? i.onGrid).getD ⟨0, 0⟩

/-- The number without zeros at the end of its digits. -/
def Number.strip (x : Number) : List Char × Int :=
  let digits := Nat.toDigits 10 x.digits
  let kept := (digits.reverse.dropWhile (· == '0')).reverse
  (kept, x.exponent + (digits.length - kept.length : Nat))

/-- Digits with a point after the first `point` of them, and at least one digit on either side. -/
def positional (digits : List Char) (point : Int) : List Char :=
  if point ≤ 0 then ['0', '.'] ++ List.replicate (-point).toNat '0' ++ digits
  else
    let whole := digits.take point.toNat ++ List.replicate (point.toNat - digits.length) '0'
    let part := digits.drop point.toNat
    whole ++ ['.'] ++ if part.isEmpty then ['0'] else part

/-- Digits with a point after the first, and an exponent of at least two digits with its sign. -/
def scientific (digits : List Char) (exponent : Int) : List Char :=
  let mantissa :=
    match digits with
    | [] => []
    | [d] => [d]
    | d :: rest => d :: '.' :: rest
  let power := Nat.toDigits 10 exponent.natAbs
  mantissa ++ ['e', if exponent < 0 then '-' else '+'] ++
    List.replicate (2 - power.length) '0' ++ power

/-- Numbers from 0.0001 up to ten to the sixteenth are written with a point, others with an
exponent. -/
def numberText (digits : List Char) (point : Int) : List Char :=
  if -4 < point ∧ point ≤ 16 then positional digits point else scientific digits (point - 1)

def text : Binary64 → List Char
  | .nan => ['n', 'a', 'n']
  | .infinite negative => (if negative then ['-'] else []) ++ ['i', 'n', 'f']
  | .finite negative mantissa exponent =>
    let sign := if negative then ['-'] else []
    if mantissa = 0 then sign ++ ['0', '.', '0']
    else
      let (digits, tail) := (shortest mantissa exponent).strip
      sign ++ numberText digits (digits.length + tail)

end Callout.Decimal
