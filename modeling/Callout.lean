import Callout.Main
import Callout.Proofs.CodeRow
import Callout.Proofs.Connectors
import Callout.Proofs.Locality
import Callout.Proofs.Translation
import Callout.Proofs.SessionHistory
import Callout.Proofs.PhysicalLines
import Callout.Proofs.Decoration
import Callout.Proofs.LabelOrder
import Callout.Proofs.CharacterSets
import Callout.Proofs.ShownColors
import Callout.Proofs.UndisturbedLines
import Callout.Proofs.DrawnInAnyOrder
import Callout.Proofs.LinePartition
import Callout.Proofs.ReportLayers
import Callout.Proofs.RenderCommand
import Callout.Proofs.NestedLabels
import Callout.Proofs.UnderlinedCharacters
import Callout.Proofs.LocusCoordinates
import Callout.Proofs.MessageConnectors
import Callout.Proofs.Transcoding
import Callout.Proofs.TextSlices
import Callout.Proofs.ConfigPrecedence
import Callout.Proofs.NoteLayout
import Callout.Proofs.ColorGrammar
import Callout.Proofs.GreatestOverlap
