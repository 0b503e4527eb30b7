import Callout.Event
import Callout.Layout.Report

namespace Callout

/-- The state between two requests. -/
structure Session where
  catalog : Catalog := {}
  output : String := ""

/-- What can be asked of a session. -/
inductive Request where
  | add (id : SourceId) (raw : RawText)
  | replace (id : SourceId) (raw : RawText)
  | get (id : SourceId)
  | contains (id : SourceId)
  | size
  | render (diagnostic : Diagnostic)
  | write (diagnostic : Diagnostic)
  | writeAside (diagnostic : Diagnostic)
  | written
  | locus (diagnostic : Diagnostic)

/-- What a request that succeeds is answered with. -/
inductive Reply where
  | added (known : Bool) (source : Source)
  | done
  | source (source : Source)
  | flag (value : Bool)
  | count (value : Nat)
  | text (value : String)
  | output (value : String)
  | aside (value : String)
  | locus (value : Locus)

namespace Session

/-- Steps on the catalog of a session. -/
def onCatalog {α : Type} (action : Action Catalog α) : Action Session α :=
  ExceptT.mk fun s =>
    let (result, catalog) := action.from s.catalog
    (result, { s with catalog })

/-- The report of a diagnostic on the sources that are known now. -/
def report (d : Diagnostic) : Action Session String := do
  Action.ofExcept (render (← get).catalog d)

/-- Carries out a request. -/
def perform : Request → Action Session Reply
  | .add id raw => do
    let known := (← get).catalog.contains id
    let source ← onCatalog (Catalog.add id raw)
    return .added known source
  | .replace id raw => do
    let source ← Action.ofExcept (Source.analyze raw)
    modify fun s => { s with catalog := s.catalog.insert id source }
    return .done
  | .get id => do
    let source ← Action.ofExcept ((← get).catalog.get id)
    return .source source
  | .contains id => return .flag ((← get).catalog.contains id)
  | .size => return .count (← get).catalog.size
  | .render d => return .text (← report d)
  | .write d => do
    let text ← report d
    modify fun s => { s with output := s.output ++ text }
    return .output (← get).output
  | .writeAside d => return .aside (← report d)
  | .written => return .text (← get).output
  | .locus d => do
    let canvas ← Action.ofExcept (Canvas.ofDiagnostic (← get).catalog d)
    let locus ← Action.ofExcept canvas.locus
    return .locus locus

def events (s : Session) : Request → List Event
  | .add id raw => Event.ofAdd s.catalog id ((Catalog.add id raw).from s.catalog).1
  | .render d | .write d | .writeAside d => Event.ofRender d
  | _ => []

/-- The answer to a request, and the session after it. -/
def step (s : Session) (r : Request) : Except Error Reply × Session :=
  (perform r).from s

end Session

end Callout
