import Callout.Catalog
import Callout.Diagnostic

namespace Callout

/-- A step worth a line in the log. -/
inductive Event where
  | analyzed (id : SourceId) (lines bytes : Nat)
  | alreadyKnown (id : SourceId)
  | rendering (severity : Severity) (id : SourceId) (labels : Nat)
  deriving DecidableEq

namespace Event

/-- A line of the log: level, origin and message. -/
def text : Event → String
  | analyzed id lines bytes =>
    s!"DEBUG reportz.source: analyzed source {id.literal}: {lines} lines, {bytes} bytes"
  | alreadyKnown id => s!"DEBUG reportz.source: source {id.literal} already cached"
  | rendering severity id labels =>
    s!"DEBUG reportz.renderer: rendering {severity.name} for {id.literal} " ++
      s!"with {labels} label(s)"

/-- What is logged when a source is asked to be added. A text that cannot be analyzed logs
nothing. -/
def ofAdd (catalog : Catalog) (id : SourceId) (added : Except Error Source) : List Event :=
  if catalog.contains id then [alreadyKnown id]
  else
    match added with
    | .ok source => [analyzed id source.lines.length source.byteLen]
    | .error _ => []

/-- What is logged when a diagnostic is rendered, whether or not that succeeds. -/
def ofRender (d : Diagnostic) : List Event :=
  [rendering d.severity d.sourceId d.labels.length]

end Event

end Callout
