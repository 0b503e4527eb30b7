import Callout.Command.Request
import Callout.Demo
import Callout.Session
import Callout.Settings
import Callout.Text.ControlSequence

namespace Callout.Command

/-- How a command ends. -/
inductive Outcome where
  | usage
  | finished (status : Nat) (output errors : String)
  | stopped (fault : SettingsFault) (errors : String)

def errorLine (message : String) : String :=
  Text.dropSequences s!"error: {message}\n"

/-- The lines of a log. It is kept only when it is asked for twice. -/
def logText (verbosity : Nat) (events : List Event) : String :=
  if 2 ≤ verbosity then String.join (events.map fun e => e.text ++ "\n") else ""

/-- Label colors, given out in the order in which labels are asked for. -/
def palette : List Color :=
  [.basic .brightBlue, .basic .magenta, .basic .cyan, .basic .green, .basic .yellow,
    .basic .brightRed]

/-- The labels asked for, in turn with each color of the palette. -/
def paletteLabels (requests : List LabelRequest) : Except Error (List Label) :=
  requests.zipIdx.mapM fun (r, i) => do
    let span ← Span.ofBounds r.start r.stop
    return ⟨span, r.message, palette.getD (i % palette.length) .default⟩

/-- The settings that a request is rendered under: those of the file it names, else of the nearest
one, else none. -/
def settingsOf (files : Files) (request : RenderRequest) : Except SettingsFault Settings :=
  match request.config with
  | some path =>
    match files.read? path with
    | some bytes => Settings.ofBytes (normalPath path) bytes
    | none => .error .notFound
  | none =>
    match Settings.find files request.file with
    | .error .notFound => .ok {}
    | .error fault => .error fault
    | .ok place => Settings.load files place

def diagnosticOf (request : RenderRequest) (config : Config) : Except Error Diagnostic := do
  let labels ← paletteLabels request.labels
  return {
    labels, config
    sourceId := .name (normalPath request.file)
    severity := request.severity
    code := request.code
    message := request.message
    notes := request.notes }

/-- A report as it is written, plain where colors are off. -/
def reportText (config : Config) (text : String) : String :=
  if config.colors then text else Text.dropSequences text

/-- Renders the diagnostic of a request over the bytes of its file. -/
def renderBytes (verbosity : Nat) (request : RenderRequest) (config : Config)
    (bytes : List UInt8) : Outcome :=
  let id := SourceId.name (normalPath request.file)
  let (added, catalog) := (Catalog.add id (.bytes bytes)).from {}
  let adding := Event.ofAdd {} id added
  let failed (events : List Event) (e : Error) : Outcome :=
    .finished 1 "" (logText verbosity events ++ errorLine e.message)
  match added with
  | .error e => failed adding e
  | .ok _ =>
    match diagnosticOf request config with
    | .error e => failed adding e
    | .ok diagnostic =>
      let events := adding ++ Event.ofRender diagnostic
      match render catalog diagnostic with
      | .error e => failed events e
      | .ok text => .finished 0 (reportText config text) (logText verbosity events)

/-- Renders a request whose file and settings file are there. -/
def runRender (files : Files) (verbosity : Nat) (request : RenderRequest) (bytes : List UInt8)
    (wording : String) : Outcome :=
  match settingsOf files request with
  | .ok settings =>
    renderBytes verbosity request (request.overrides.apply settings.config) bytes
  | .error fault =>
    if fault.isReported then .finished 1 "" (errorLine (fault.message wording))
    else .stopped fault ""

/-- Why a command line is not carried out. -/
inductive Refusal where
  | usage
  | nulInPath
  deriving DecidableEq

/-- The bytes of a file that has to be there. -/
def requireFile (files : Files) (path : String) : Except Refusal (List UInt8) :=
  if '\x00' ∈ path.toList then .error .nulInPath
  else
    match files.read? path with
    | some bytes => .ok bytes
    | none => .error .usage

def require {α : Type} : Option α → Except Refusal α
  | some value => .ok value
  | none => .error .usage

/-- Whether what the switches of one topic say has a meaning. -/
def checkTopic (files : Files) (found : List RenderSwitch) : RenderTopic → Except Refusal Unit
  | .label => (require (labelRequests? found)).map fun _ => ()
  | .severity => (require (severity? found)).map fun _ => ()
  | .charSet => (require (charSetChoice? found)).map fun _ => ()
  | .attach => (require (attachChoice? found)).map fun _ => ()
  | .config =>
    match configPath found with
    | some path => (requireFile files path).map fun _ => ()
    | none => .ok ()
  | .code | .message | .note | .colors | .ellipsis | .underlines => .ok ()

/-- The request that switches and operands make, and the bytes of its file. Topics are looked at in
the order in which they come up, then the file, then whether there is more than one. -/
def prepareRender (files : Files) (found : List RenderSwitch) (operands : List String) :
    Except Refusal (RenderRequest × List UInt8) := do
  (found.map RenderSwitch.topic).eraseDups.forM (checkTopic files found)
  let file :: others := operands | throw .usage
  let bytes ← requireFile files file
  if !others.isEmpty then throw .usage
  return (← require (renderRequest? found file), bytes)

def prepareLines (files : Files) (operands : List String) : Except Refusal (List UInt8) := do
  let file :: others := operands | throw .usage
  let bytes ← requireFile files file
  if others.isEmpty then return bytes else throw .usage

def fiveColumns (n : Nat) : String :=
  let digits := toString n
  String.ofList (List.replicate (5 - digits.length) ' ') ++ digits

/-- The row of a line in the table of lines. -/
def lineRow (index : Nat) (l : Line) : String :=
  s!"{fiveColumns (index + 1)}  bytes {l.byteOffset}+{l.byteLen}" ++
    s!"  chars {l.charOffset}+{l.charLen}\n"

def lineTable (s : Source) : String :=
  s!"{s.lines.length} lines, {s.charLen} chars, {s.byteLen} bytes\n" ++
    String.join (s.lines.zipIdx.map fun (l, i) => lineRow i l)

def runLines (bytes : List UInt8) : Outcome :=
  match Source.analyze (.bytes bytes) with
  | .error e => .finished 1 "" (errorLine e.message)
  | .ok source => .finished 0 (lineTable source) ""

def runDemo (verbosity : Nat) (config : Config) : Outcome :=
  let (added, catalog) := (Catalog.add Demo.sourceId (.ofString Demo.text)).from {}
  let diagnostic := Demo.diagnostic config
  let events := Event.ofAdd {} Demo.sourceId added ++ Event.ofRender diagnostic
  match added.bind fun _ => render catalog diagnostic with
  | .error e => .finished 1 "" (logText verbosity events ++ errorLine e.message)
  | .ok text => .finished 0 (reportText config text) (logText verbosity events)

def versionText : String := "reportz, version 0.1.0\n"

/-- How a command line ends that is not carried out. -/
def Refusal.outcome : Refusal → Outcome
  | usage => .usage
  | nulInPath => .stopped .nulInPath ""

def runInvocation (files : Files) (verbosity : Nat) (wording : String) :
    Invocation → Except Refusal Outcome
  | .version => return .finished 0 versionText ""
  | .render found operands => do
    let (request, bytes) ← prepareRender files found operands
    return runRender files verbosity request bytes wording
  | .lines operands => do
    return runLines (← prepareLines files operands)
  | .demo found operands => do
    let config ← require (demoConfig? found)
    if operands.isEmpty then return runDemo verbosity config else throw .usage

/-- Carries out a command line. `wording` is what is said of a settings file that is no document. -/
def run (files : Files) (words : List String) (wording : String := "") : Outcome :=
  match invocation? words with
  | none => .usage
  | some (verbosity, invocation) =>
    match runInvocation files verbosity wording invocation with
    | .ok outcome => outcome
    | .error refusal => refusal.outcome

end Callout.Command
