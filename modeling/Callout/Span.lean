namespace Callout

/-- The bytes from `start` up to but not including `stop`. -/
structure Span where
  start : Nat
  stop : Nat
  start_le_stop : start ≤ stop
  deriving DecidableEq

namespace Span

/-- The span from `start` to `stop`, empty at `start` when `stop` comes first. -/
def between (start stop : Nat) : Span :=
  ⟨start, max start stop, Nat.le_max_left start stop⟩

/-- The span with the given bounds, which must be in order and not negative. -/
def ofBounds? (start stop : Int) : Option Span :=
  if h : 0 ≤ start ∧ start ≤ stop then some ⟨start.toNat, stop.toNat, by omega⟩ else none

def length (s : Span) : Nat :=
  s.stop - s.start

/-- Whether the positions from `start` to `stop`, both included, lie in a span and its end. -/
def covers (s : Span) (start stop : Nat) : Bool :=
  s.start ≤ start && stop ≤ s.stop

def text (s : Span) : String :=
  s!"{s.start}..{s.stop}"

end Span

end Callout
