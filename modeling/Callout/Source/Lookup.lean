import Callout.Source.Basic

namespace Callout

/-- The coordinate of a position: its line, counted from one, and the characters before it on that
line. -/
structure Locus where
  line : Nat
  column : Nat
  deriving DecidableEq, Repr

namespace Source

def line (s : Source) (index : Int) : Except Error Line :=
  let outside := Error.lineOutside index s.lines.length
  if 0 ≤ index then
    match s.lines[index.toNat]? with
    | some line => .ok line
    | none => .error outside
  else .error outside

/-- The index of the line that holds a position: the last line that starts at or before it. The end
of the source belongs to the last line. -/
def lineAt (s : Source) (position : Int) : Except Error Nat :=
  if 0 ≤ position ∧ position ≤ s.byteLen then
    .ok ((s.lines.countP fun l => (l.byteOffset : Int) ≤ position) - 1)
  else .error (.positionOutside position s.byteLen)

/-- The lines that hold the first and the last byte of a span. -/
def spanLines (s : Source) (span : Span) : Except Error (Nat × Nat) := do
  if s.byteLen < span.stop then
    throw (.spanOutside span (.pastEnd s.byteLen))
  let startLine ← s.lineAt span.start
  let endLine ← s.lineAt (max span.start (span.stop - 1) : Nat)
  return (startLine, endLine)

/-- The offset that a bound stands for: a negative one counts from the end of the source. -/
def offset (s : Source) (bound : Int) : Nat :=
  (if bound < 0 then s.bytes.length + bound else bound).toNat

/-- The text of the bytes from `start` up to `stop`, if they are whole characters. -/
def between? (s : Source) (start stop : Nat) : Option (List Char) :=
  (Utf8.decode ((s.bytes.drop start).take (stop - start))).toOption

def textBetween (s : Source) (start stop : Int) : Except Error (List Char) :=
  match s.between? (s.offset start) (s.offset stop) with
  | some text => .ok text
  | none => do
    let span ← Span.ofBounds start stop
    throw (.spanOutside span .misaligned)

def lineSlice (s : Source) (index : Int) : Except Error (List Char) := do
  let line ← s.line index
  s.textBetween line.byteOffset line.byteEnd

def locus (s : Source) (span : Span) : Except Error Locus := do
  if s.byteLen < span.stop then
    throw (.spanOutside span (.pastEnd s.byteLen))
  let index ← s.lineAt span.start
  let line ← s.line index
  let before ← s.textBetween line.byteOffset span.start
  return ⟨index + 1, before.length⟩

end Source

end Callout
