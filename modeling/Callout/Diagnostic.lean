import Callout.Color
import Callout.Glyph

namespace Callout

/-- How bad a finding is. -/
inductive Severity where
  | error
  | warning
  | advice
  deriving DecidableEq, Repr

namespace Severity

def name : Severity → String
  | error => "error"
  | warning => "warning"
  | advice => "advice"

def color : Severity → BasicColor
  | error => .brightRed
  | warning => .yellow
  | advice => .brightGreen

def read (text : String) : Except Error Severity :=
  match [error, warning, advice].find? fun s => s.name = text with
  | some severity => .ok severity
  | none => .error (.unknownSeverity text)

end Severity

/-- The column of an underlined label from which its message hangs. -/
inductive Attach where
  | center
  | last
  deriving DecidableEq, Repr

namespace Attach

def name : Attach → String
  | center => "center"
  | last => "end"

def read? (text : String) : Option Attach :=
  [center, last].find? fun a => a.name = text

/-- The choice of a name, or the reason that there is none. -/
def read (text : String) : Except Error Attach :=
  match read? text with
  | some attach => .ok attach
  | none => .error (.unknownAttach text)

end Attach

/-- A message that points at a span of the source. -/
structure Label where
  span : Span
  message : String
  color : Color := .default
  deriving DecidableEq

/-- A remark below the snippet. -/
structure Note where
  category : String
  message : String
  color : Color := .default
  deriving DecidableEq

/-- How a report is drawn. -/
structure Config where
  colors : Bool := true
  underlines : Bool := true
  ellipsis : Bool := true
  attach : Attach := .center
  charSet : CharSet := .rounded
  deriving DecidableEq

/-- A finding with its labels and notes, in the order supplied. -/
structure Diagnostic where
  sourceId : SourceId
  severity : Severity
  message : String
  code : Option String := none
  labels : List Label := []
  notes : List Note := []
  config : Config := {}

end Callout
