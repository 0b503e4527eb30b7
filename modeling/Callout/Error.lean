import Callout.Span
import Callout.Text.Quoted
import Callout.Text.Utf8

namespace Callout

/-- The key of a source: a name or a number. A number is never equal to its digits as a name. -/
inductive SourceId where
  | name (text : String)
  | number (value : Int)
  deriving DecidableEq, Repr

namespace SourceId

def shown : SourceId → String
  | name text => text
  | number value => toString value

/-- An identifier as messages show it: names in quotes. -/
def literal : SourceId → String
  | name text => Text.quoted text
  | number value => toString value

end SourceId

/-- Why a span does not fit its source. -/
inductive SpanFault where
  | pastEnd (byteLen : Nat)
  | misaligned
  deriving DecidableEq, Repr

/-- Why a text has no UTF-8 form, or bytes have no text. -/
inductive EncodingFault where
  | bytes (fault : Utf8.Fault)
  | codes (fault : Utf8.Surrogates)
  deriving DecidableEq, Repr

namespace EncodingFault

/-- The wording of a reason that bytes are refused. -/
def reasonText : Utf8.Reason → String
  | .startByte => "invalid start byte"
  | .continuation => "invalid continuation byte"
  | .truncated => "unexpected end of data"

/-- Names the bad bytes by value when there is one, by range when there are more. -/
def message : EncodingFault → String
  | bytes fault =>
    let reason := reasonText fault.reason
    match fault.bytes with
    | [b] =>
      let digits := String.ofList (Text.hexadecimal 2 b.toNat)
      s!"'utf-8' codec can't decode byte 0x{digits} in position {fault.position}: {reason}"
    | several =>
      let last := fault.position + several.length - 1
      s!"'utf-8' codec can't decode bytes in position {fault.position}-{last}: {reason}"
  | codes fault =>
    match fault.codes with
    | [code] =>
      let escape := String.ofList (Text.escapeCode code)
      s!"'utf-8' codec can't encode character '{escape}' in position {fault.position}: " ++
        "surrogates not allowed"
    | several =>
      let last := fault.position + several.length - 1
      s!"'utf-8' codec can't encode characters in position {fault.position}-{last}: " ++
        "surrogates not allowed"

end EncodingFault

/-- What can go wrong between a diagnostic and its report. -/
inductive Error where
  | unknownSource (id : SourceId)
  | noLabels
  | noSnippet
  | positionOutside (position : Int) (byteLen : Nat)
  | spanOutside (span : Span) (reason : SpanFault)
  | lineOutside (index : Int) (count : Nat)
  | invalidEncoding (fault : EncodingFault)
  | invalidSpan (start stop : Int)
  | rowOverflow (column : Nat)
  | unknownColor (text : String)
  | unknownCharSet (name : String)
  | unknownSeverity (name : String)
  | unknownAttach (name : String)
  deriving DecidableEq

namespace Error

/-- A connector in a column that the margin does not have. -/
@[match_pattern]
abbrev marginOverflow (column : Nat) : Error := rowOverflow column

def message : Error → String
  | unknownSource id => s!"unknown source: {id.literal}"
  | noLabels => "diagnostic has no labels to derive a snippet location from"
  | noSnippet => "diagnostic has no labels and so no snippet"
  | positionOutside position byteLen =>
    s!"position {position} is outside source of {byteLen} bytes"
  | spanOutside span (.pastEnd byteLen) =>
    s!"span {span.text} is outside source of {byteLen} bytes"
  | spanOutside span .misaligned => s!"span {span.text} is not aligned to character boundaries"
  | lineOutside index count =>
    s!"line index {index} out of range (source has {count} lines)"
  | invalidEncoding fault => s!"source is not valid UTF-8 text: {fault.message}"
  | invalidSpan start stop => s!"invalid span {start}..{stop}"
  | rowOverflow column => s!"column {column} is outside its row"
  | unknownColor text => s!"unknown color: {Text.quoted text}"
  | unknownCharSet name =>
    s!"unknown character set {Text.quoted name} (expected one of: rounded, square, ascii)"
  | unknownSeverity name => s!"{Text.quoted name} is not a valid Severity"
  | unknownAttach name => s!"{Text.quoted name} is not a valid LabelAttach"

end Error

/-- The span with the given bounds, or the reason that there is none. -/
def Span.ofBounds (start stop : Int) : Except Error Span :=
  match Span.ofBounds? start stop with
  | some span => .ok span
  | none => .error (.invalidSpan start stop)

theorem Span.ofBounds_eq_ok {start stop : Int} {s : Span} (hstart : start = s.start)
    (hstop : stop = s.stop) : Span.ofBounds start stop = .ok s := by
  have hle := s.start_le_stop
  subst hstart hstop
  have hb : (0 : Int) ≤ s.start ∧ (s.start : Int) ≤ s.stop := by omega
  rw [ofBounds, ofBounds?, dif_pos hb]
  rfl

/-- Bounds that make a span are its bounds. -/
theorem Span.ofBounds_eq_ok_iff {start stop : Int} {s : Span} :
    Span.ofBounds start stop = .ok s ↔ (s.start : Int) = start ∧ (s.stop : Int) = stop := by
  constructor
  · intro h
    unfold ofBounds ofBounds? at h
    split at h
    next found hfound =>
      split at hfound
      next hb =>
        cases hfound
        cases h
        exact ⟨Int.toNat_of_nonneg hb.1, Int.toNat_of_nonneg (by omega)⟩
      next => cases hfound
    next => cases h
  · rintro ⟨hstart, hstop⟩
    exact ofBounds_eq_ok hstart.symm hstop.symm

/-- Bounds that are out of order or negative make no span. -/
theorem Span.ofBounds_eq_error_iff {start stop : Int} {e : Error} :
    Span.ofBounds start stop = .error e ↔
      ¬(0 ≤ start ∧ start ≤ stop) ∧ e = .invalidSpan start stop := by
  unfold ofBounds ofBounds?
  by_cases hb : 0 ≤ start ∧ start ≤ stop
  · simp [hb]
  · simp [hb, eq_comm]

end Callout
