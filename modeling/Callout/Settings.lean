import Callout.Diagnostic
import Callout.FileTree
import Callout.Toml.Reader

namespace Callout

/-- Why settings cannot be had. -/
inductive SettingsFault where
  | notFound
  | isDirectory
  | nulInPath
  | nameTooLong
  | notText (fault : Utf8.Fault)
  | notDocument (fault : Toml.Fault)
  | notTable
  | charSetNotText
  | invalidAttach (path : String) (value : Toml.Value)
  | attachTooLong
  | attachTooDeep
  | unknownCharSet (path name : String)

namespace SettingsFault

def digitLimit (detail : String) : String :=
  s!"Exceeds the limit ({Text.maxDigits} digits) for integer string conversion{detail}; " ++
    "use sys.set_int_max_str_digits() to increase the limit"

/-- What is said of a fault. Of a malformed document, and where the program stops, it is `wording`: what
others say, who read documents, open files and look values up. -/
def message (fault : SettingsFault) (wording : String := "") : String :=
  match fault with
  | notFound => "No reportz.toml found in any parent directory"
  | nulInPath => "embedded null byte"
  | notText fault => (EncodingFault.bytes fault).message
  | notDocument (.tooManyDigits count) => digitLimit s!": value has {count} digits"
  | invalidAttach path value => s!"{path}: invalid label_attach {value.literal}"
  | attachTooLong => digitLimit ""
  | unknownCharSet path name => s!"{path}: {(Error.unknownCharSet name).message}"
  | notDocument .malformed | notDocument .nestedTooDeep | isDirectory | nameTooLong | notTable
  | charSetNotText | attachTooDeep => wording

/-- Whether a fault lies in a value, and is reported; any other stops the program. -/
def isReported : SettingsFault → Bool
  | notDocument .nestedTooDeep => false
  | notText _ | notDocument _ | invalidAttach .. | attachTooLong | unknownCharSet ..
  | nulInPath => true
  | notFound | isDirectory | nameTooLong | notTable | charSetNotText | attachTooDeep => false

end SettingsFault

/-- The settings of a file. Switches keep the values they are given, of whatever kind. -/
structure Settings where
  colors : Toml.Value := .boolean true
  underlines : Toml.Value := .boolean true
  ellipsis : Toml.Value := .boolean true
  attach : Attach := .center
  charSet : CharSet := .rounded
  tabWidth : Toml.Value := .integer 4

namespace Settings

def fileName : String := "reportz.toml"

/-- Whether a place, or a settings file in its directory, could not even be looked for. -/
def isTooLong (tree : FileTree) (place : List String) : Bool :=
  tree.hasLongName place || maxPathBytes ≤ (pathOf place).utf8ByteSize ||
    maxPathBytes ≤ (pathOf (tree.directoryOf place ++ [fileName])).utf8ByteSize

/-- The place of the settings file nearest to a start path. -/
def find (files : Files) (start : String) : Except SettingsFault (List String) :=
  if '\x00' ∈ start.toList then .error .nulInPath
  else if isTooLong files.tree (files.place start) then .error .nameTooLong
  else
    match files.tree.nearest? fileName (files.place start) with
    | some found => .ok found
    | none => .error .notFound

/-- The place of the label's message, from the value of a setting. -/
def readAttach (path : String) (value : Toml.Value) : Except SettingsFault Attach :=
  let invalid : SettingsFault :=
    match value.obstacle? (Nat.pow 10 Text.maxDigits) Toml.maxNesting with
    | none => .invalidAttach path value
    | some .tooManyDigits => .attachTooLong
    | some .nestedTooDeep => .attachTooDeep
  match value with
  | .text name =>
    match Attach.read? name with
    | some attach => .ok attach
    | none => .error invalid
  | _ => .error invalid

/-- The character set, from the value of a setting. -/
def readCharSet (path : String) (value : Toml.Value) : Except SettingsFault CharSet :=
  match value with
  | .text name => (CharSet.read name).mapError fun _ => .unknownCharSet path name
  | _ => .error .charSetNotText

/-- The settings in the table `render` of a document. -/
def ofEntries (path : String) (document : Toml.Entries) : Except SettingsFault Settings := do
  let base : Settings := {}
  match (document.lookup "render").getD (.table .declared []) with
  | .table _ entries =>
    let attach ←
      ((entries.lookup "label_attach").map (readAttach path)).getD (.ok base.attach)
    let charSet ←
      ((entries.lookup "char_set").map (readCharSet path)).getD (.ok base.charSet)
    return {
      attach, charSet
      colors := (entries.lookup "colors").getD base.colors
      underlines := (entries.lookup "underlines").getD base.underlines
      ellipsis := (entries.lookup "ellipsis").getD base.ellipsis
      tabWidth := (entries.lookup "tab_width").getD base.tabWidth }
  | _ => throw .notTable

/-- The settings in the bytes of a file, which messages call `path`. -/
def ofBytes (path : String) (bytes : List UInt8) : Except SettingsFault Settings := do
  let text ← (Utf8.decode bytes).mapError .notText
  let document ← (Toml.read text).mapError .notDocument
  ofEntries path document

/-- The settings at a place, which messages call by its path. -/
def load (files : Files) (place : List String) : Except SettingsFault Settings :=
  match files.tree.at? place with
  | some (.file bytes) => ofBytes (pathOf place) bytes
  | some (.directory _) => .error .isDirectory
  | none => .error .notFound

def config (s : Settings) : Config where
  colors := s.colors.isOn
  underlines := s.underlines.isOn
  ellipsis := s.ellipsis.isOn
  attach := s.attach
  charSet := s.charSet

end Settings

end Callout
