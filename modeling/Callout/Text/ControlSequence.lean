namespace Callout.Text

/-- How far into a control sequence a text has been read: an escape and a bracket, then parameters,
then intermediates, then one final character. -/
inductive SequencePhase where
  | outside
  | escape
  | parameters
  | intermediates
  deriving DecidableEq

/-- A reader of control sequences. `held` is what it has read of one, last character first. -/
structure SequenceReader where
  phase : SequencePhase := .outside
  held : List Char := []

namespace SequenceReader

/-- What a reader still holds is text when no sequence is completed. -/
def release (r : SequenceReader) : List Char :=
  r.held.reverse

/-- The phase after a character that goes on with a sequence; none if it does not. -/
def advance? : SequencePhase → Char → Option SequencePhase
  | .outside, _ => none
  | .escape, c => if c = '[' then some .parameters else none
  | .parameters, c =>
    if '0' ≤ c ∧ c ≤ '?' then some .parameters
    else if ' ' ≤ c ∧ c ≤ '/' then some .intermediates
    else none
  | .intermediates, c => if ' ' ≤ c ∧ c ≤ '/' then some .intermediates else none

def completes : SequencePhase → Char → Bool
  | .parameters, c | .intermediates, c => '@' ≤ c && c ≤ '~'
  | .outside, _ | .escape, _ => false

/-- Reads a character: what turns out to be text, and the reader after it. -/
def step (r : SequenceReader) (c : Char) : List Char × SequenceReader :=
  if c = '\x1b' then (r.release, ⟨.escape, [c]⟩)
  else
    match advance? r.phase c with
    | some phase => ([], ⟨phase, c :: r.held⟩)
    | none => if completes r.phase c then ([], {}) else (r.release ++ [c], {})

theorem step_outside {c : Char} (h : c ≠ '\x1b') : step {} c = ([c], {}) := by
  rw [step, if_neg h]
  rfl

/-- What is text in the rest of an input. -/
def run (r : SequenceReader) : List Char → List Char
  | [] => r.release
  | c :: rest => (r.step c).1 ++ (r.step c).2.run rest

end SequenceReader

def dropSequences (text : String) : String :=
  String.ofList (SequenceReader.run {} text.toList)

end Callout.Text
