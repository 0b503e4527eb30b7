import Callout.Error
import Callout.Text.Blank

namespace Callout

/-- Line feed, vertical tab, next line, line separator and paragraph separator. -/
def isSeparator (c : Char) : Bool :=
  c.toNat == 0x0a || c.toNat == 0x0b || c.toNat == 0x85 || c.toNat == 0x2028 || c.toNat == 0x2029

/-- The characters that are not shown at the end of a line: separators and carriage returns. -/
def isTerminator (c : Char) : Bool :=
  isSeparator c || c == '\r'

/-- A text without the terminators at its end. -/
def dropTerminators (text : List Char) : List Char :=
  Text.dropEndWhile isTerminator text

/-- A line by its place in the text and in the bytes of its source. -/
structure Line where
  charOffset : Nat
  charLen : Nat
  byteOffset : Nat
  byteLen : Nat
  deriving DecidableEq, Repr

namespace Line

/-- The empty line at the start of a source. -/
def first : Line := ⟨0, 0, 0, 0⟩

def byteEnd (l : Line) : Nat :=
  l.byteOffset + l.byteLen

/-- A line with one more character at its end. -/
def push (l : Line) (c : Char) : Line :=
  { l with charLen := l.charLen + 1, byteLen := l.byteLen + c.utf8Size }

def next (l : Line) : Line :=
  ⟨l.charOffset + l.charLen, 0, l.byteEnd, 0⟩

end Line

/-- The lines of a text whose first characters are already counted in `line`. A separator belongs to
the line that it ends; the last line ends with the text, and may be empty. -/
def linesFrom (line : Line) : List Char → List Line
  | [] => [line]
  | c :: rest =>
    if isSeparator c then line.push c :: linesFrom (line.push c).next rest
    else linesFrom (line.push c) rest

/-- The sum of the widths of all characters, in bytes. -/
def byteWidth : List Char → Nat
  | [] => 0
  | c :: rest => c.utf8Size + byteWidth rest

/-- A text together with what is computed from it. -/
structure Source where
  text : List Char
  bytes : List UInt8
  lines : List Line
  charLen : Nat
  byteLen : Nat
  bytes_eq : bytes = Utf8.encode text
  lines_eq : lines = linesFrom .first text
  charLen_eq : charLen = text.length
  byteLen_eq : byteLen = byteWidth text

/-- A text as it is handed in: code points, which may be surrogates, or bytes, which may be ill
formed. -/
inductive RawText where
  | codes (points : List Nat)
  | bytes (octets : List UInt8)

namespace RawText

def ofString (text : String) : RawText :=
  codes (text.toList.map Char.toNat)

def characters : RawText → Except EncodingFault (List Char)
  | codes points => (Utf8.scalars points).mapError .codes
  | bytes octets => (Utf8.decode octets).mapError .bytes

end RawText

namespace Source

def ofText (text : List Char) : Source where
  text := text
  bytes := Utf8.encode text
  lines := linesFrom .first text
  charLen := text.length
  byteLen := byteWidth text
  bytes_eq := rfl
  lines_eq := rfl
  charLen_eq := rfl
  byteLen_eq := rfl

/-- The analysis of a raw text, which has to be free of faults. -/
def analyze (raw : RawText) : Except Error Source :=
  match raw.characters with
  | .ok text => .ok (ofText text)
  | .error fault => .error (.invalidEncoding fault)

end Source

end Callout
