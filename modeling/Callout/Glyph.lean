import Callout.Error
import Callout.Text.Blank

namespace Callout

/-- The roles of drawn characters. -/
inductive Glyph where
  | hbar | vbar | xbar | vbarBreak | vbarGap | uarrow | rarrow
  | ltop | mtop | rtop | lbot | mbot | rbot
  | lbox | rbox | lcross | rcross
  | underbar | underline
  deriving DecidableEq, Repr

/-- A complete set of drawn characters. -/
inductive CharSet where
  | rounded
  | square
  | ascii
  deriving DecidableEq, Repr

namespace CharSet

/-- Every set, in the order in which messages list them. -/
def all : List CharSet :=
  [rounded, square, ascii]

def name : CharSet → String
  | rounded => "rounded"
  | square => "square"
  | ascii => "ascii"

def roundedGlyph : Glyph → Char
  | .hbar => '─'
  | .vbar => '│'
  | .xbar => '┼'
  | .vbarBreak => '┆'
  | .vbarGap => '┆'
  | .uarrow => '▲'
  | .rarrow => '▶'
  | .ltop => '╭'
  | .mtop => '┬'
  | .rtop => '╮'
  | .lbot => '╰'
  | .mbot => '┴'
  | .rbot => '╯'
  | .lbox => '['
  | .rbox => ']'
  | .lcross => '├'
  | .rcross => '┤'
  | .underbar => '┬'
  | .underline => '─'

/-- The square set differs from the rounded one at its corners. -/
def squareGlyph : Glyph → Char
  | .ltop => '┌'
  | .rtop => '┐'
  | .lbot => '└'
  | .rbot => '┘'
  | role => roundedGlyph role

def asciiGlyph : Glyph → Char
  | .hbar => '-'
  | .vbar => '|'
  | .xbar => '+'
  | .vbarBreak => '*'
  | .vbarGap => ':'
  | .uarrow => '^'
  | .rarrow => '>'
  | .ltop => ','
  | .mtop => 'v'
  | .rtop => '.'
  | .lbot => '\x60'
  | .mbot => '^'
  | .rbot => '\''
  | .lbox => '['
  | .rbox => ']'
  | .lcross => '|'
  | .rcross => '|'
  | .underbar => '|'
  | .underline => '^'

/-- The character that a set draws in a role. -/
def glyph : CharSet → Glyph → Char
  | rounded => roundedGlyph
  | square => squareGlyph
  | ascii => asciiGlyph

/-- The set of a name, in any case and with white space around it. -/
def read (text : String) : Except Error CharSet :=
  let body := (Text.trim text.toList).map Char.toLower
  match all.find? fun set => set.name.toList = body with
  | some set => .ok set
  | none => .error (.unknownCharSet text)

end CharSet

end Callout
