import Callout.Command.Switch
import Callout.Diagnostic
import Callout.Text.Numeral

namespace Callout.Command

/-- A switch in front of a command. -/
inductive GlobalSwitch where
  | verbose
  | version
  deriving DecidableEq

def globalSwitches : List (Switch GlobalSwitch) :=
  [⟨some 'v', "--verbose", 0, fun _ => .verbose⟩,
    ⟨none, "--version", 0, fun _ => .version⟩]

/-- A switch of the command that renders, with its values as they stand. -/
inductive RenderSwitch where
  | label (values : List String)
  | severity (value : String)
  | code (value : String)
  | message (value : String)
  | note (values : List String)
  | charSet (value : String)
  | attach (value : String)
  | colors (value : Bool)
  | ellipsis (value : Bool)
  | underlines (value : Bool)
  | config (value : String)

/-- What a switch of the command that renders is about. -/
inductive RenderTopic where
  | label | severity | code | message | note | charSet | attach
  | colors | ellipsis | underlines | config
  deriving DecidableEq

def RenderSwitch.topic : RenderSwitch → RenderTopic
  | label _ => .label
  | severity _ => .severity
  | code _ => .code
  | message _ => .message
  | note _ => .note
  | charSet _ => .charSet
  | attach _ => .attach
  | colors _ => .colors
  | ellipsis _ => .ellipsis
  | underlines _ => .underlines
  | config _ => .config

def one (values : List String) : String :=
  values.headD ""

def renderSwitches : List (Switch RenderSwitch) :=
  [⟨some 'l', "--label", 3, .label⟩,
    ⟨none, "--severity", 1, fun v => .severity (one v)⟩,
    ⟨none, "--code", 1, fun v => .code (one v)⟩,
    ⟨some 'm', "--message", 1, fun v => .message (one v)⟩,
    ⟨some 'n', "--note", 2, .note⟩,
    ⟨none, "--char-set", 1, fun v => .charSet (one v)⟩,
    ⟨none, "--attach", 1, fun v => .attach (one v)⟩,
    ⟨none, "--color", 0, fun _ => .colors true⟩,
    ⟨none, "--no-color", 0, fun _ => .colors false⟩,
    ⟨none, "--ellipsis", 0, fun _ => .ellipsis true⟩,
    ⟨none, "--no-ellipsis", 0, fun _ => .ellipsis false⟩,
    ⟨none, "--underlines", 0, fun _ => .underlines true⟩,
    ⟨none, "--no-underlines", 0, fun _ => .underlines false⟩,
    ⟨none, "--config", 1, fun v => .config (one v)⟩]

/-- A label as it is asked for. Its bounds need not be in order. -/
structure LabelRequest where
  start : Int
  stop : Int
  message : String

/-- Choices that take the place of settings. -/
structure Overrides where
  charSet : Option CharSet := none
  attach : Option Attach := none
  colors : Option Bool := none
  ellipsis : Option Bool := none
  underlines : Option Bool := none

/-- A choice, where one is made, in place of each part of a configuration. -/
def Overrides.apply (o : Overrides) (c : Config) : Config where
  charSet := o.charSet.getD c.charSet
  attach := o.attach.getD c.attach
  colors := o.colors.getD c.colors
  ellipsis := o.ellipsis.getD c.ellipsis
  underlines := o.underlines.getD c.underlines

/-- One diagnostic to be rendered. -/
structure RenderRequest where
  file : String
  labels : List LabelRequest
  severity : Severity
  code : Option String
  message : String
  notes : List Note
  overrides : Overrides
  config : Option String

/-- The value of the last switch of a kind. -/
def last? {α β : Type} (pick : α → Option β) (found : List α) : Option β :=
  (found.filterMap pick).getLast?

/-- The meaning of a value that may be absent; a value without meaning is refused. -/
def optional {α : Type} (read : String → Option α) : Option String → Option (Option α)
  | none => some none
  | some text => (read text).map some

def labelRequest? : List String → Option LabelRequest
  | [start, stop, message] => do
    return ⟨← Text.wholeNumber? start.toList, ← Text.wholeNumber? stop.toList, message⟩
  | _ => none

def note? : List String → Option Note
  | [category, message] => some ⟨category, message, .default⟩
  | _ => none

def charSet? (name : String) : Option CharSet :=
  CharSet.all.find? fun set => set.name = name

def labelRequests? (found : List RenderSwitch) : Option (List LabelRequest) :=
  (found.filterMap fun | .label v => some v | _ => none).mapM labelRequest?

def notes? (found : List RenderSwitch) : Option (List Note) :=
  (found.filterMap fun | .note v => some v | _ => none).mapM note?

def severity? (found : List RenderSwitch) : Option Severity :=
  (Severity.read ((last? (fun | .severity v => some v | _ => none) found).getD "error")).toOption

def charSetChoice? (found : List RenderSwitch) : Option (Option CharSet) :=
  optional charSet? (last? (fun | .charSet v => some v | _ => none) found)

def attachChoice? (found : List RenderSwitch) : Option (Option Attach) :=
  optional Attach.read? (last? (fun | .attach v => some v | _ => none) found)

def configPath (found : List RenderSwitch) : Option String :=
  last? (fun | .config v => some v | _ => none) found

def renderRequest? (found : List RenderSwitch) (file : String) : Option RenderRequest := do
  let labels ← labelRequests? found
  let notes ← notes? found
  let severity ← severity? found
  let charSet ← charSetChoice? found
  let attach ← attachChoice? found
  return {
    file, labels, severity, notes
    code := last? (fun | .code v => some v | _ => none) found
    message := (last? (fun | .message v => some v | _ => none) found).getD ""
    overrides := {
      charSet, attach
      colors := last? (fun | .colors v => some v | _ => none) found
      ellipsis := last? (fun | .ellipsis v => some v | _ => none) found
      underlines := last? (fun | .underlines v => some v | _ => none) found }
    config := configPath found }

/-- A switch of the command that shows the example. -/
inductive DemoSwitch where
  | charSet (value : String)
  | colors (value : Bool)

/-- The switches of the command that shows the example. -/
def demoSwitches : List (Switch DemoSwitch) :=
  [⟨none, "--char-set", 1, fun v => .charSet (one v)⟩,
    ⟨none, "--color", 0, fun _ => .colors true⟩,
    ⟨none, "--no-color", 0, fun _ => .colors false⟩]

def demoConfig? (found : List DemoSwitch) : Option Config := do
  let charSet ← charSet?
    ((last? (fun | .charSet v => some v | _ => none) found).getD CharSet.rounded.name)
  let colors := (last? (fun | .colors v => some v | _ => none) found).getD true
  return { charSet, colors }

/-- A command with its switches and its other words, whose values are not looked at yet. -/
inductive Invocation where
  | version
  | render (found : List RenderSwitch) (operands : List String)
  | lines (operands : List String)
  | demo (found : List DemoSwitch) (operands : List String)

/-- The invocation of a command with the words behind it. -/
def commandInvocation? (command : String) (words : List String) : Option Invocation :=
  match command with
  | "render" => (Switch.read renderSwitches true words).map fun r => .render r.1 r.2
  | "lines" => (Switch.read ([] : List (Switch Unit)) true words).map fun r => .lines r.2
  | "demo" => (Switch.read demoSwitches true words).map fun r => .demo r.1 r.2
  | _ => none

/-- How often the log is asked for, and the invocation. A word in the place of a command that looks
like a switch may still ask for the version. -/
def invocation? (words : List String) : Option (Nat × Invocation) := do
  let (found, others) ← Switch.read globalSwitches false words
  let verbosity := found.count .verbose
  if .version ∈ found then return (verbosity, .version)
  let command :: rest := others | none
  match commandInvocation? command rest with
  | some invocation => return (verbosity, invocation)
  | none =>
    if command.toList.head? = some '-' then
      let (again, _) ← Switch.read globalSwitches false others
      if .version ∈ again then return (verbosity, .version) else none
    else none

end Callout.Command
