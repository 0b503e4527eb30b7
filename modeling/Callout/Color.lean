import Callout.Error
import Callout.Text.Blank

namespace Callout

/-- The colors of a sixteen-color terminal and its default color. -/
inductive BasicColor where
  | black | red | green | yellow | blue | magenta | cyan | white
  | default
  | brightBlack | brightRed | brightGreen | brightYellow
  | brightBlue | brightMagenta | brightCyan | brightWhite
  deriving DecidableEq, Repr

namespace BasicColor

def all : List BasicColor :=
  [black, red, green, yellow, blue, magenta, cyan, white, default,
    brightBlack, brightRed, brightGreen, brightYellow,
    brightBlue, brightMagenta, brightCyan, brightWhite]

/-- The name of a color in settings and data. -/
def name : BasicColor → String
  | black => "black"
  | red => "red"
  | green => "green"
  | yellow => "yellow"
  | blue => "blue"
  | magenta => "magenta"
  | cyan => "cyan"
  | white => "white"
  | default => "default"
  | brightBlack => "bright_black"
  | brightRed => "bright_red"
  | brightGreen => "bright_green"
  | brightYellow => "bright_yellow"
  | brightBlue => "bright_blue"
  | brightMagenta => "bright_magenta"
  | brightCyan => "bright_cyan"
  | brightWhite => "bright_white"

/-- The number that selects a color for the foreground. -/
def code : BasicColor → Nat
  | black => 30
  | red => 31
  | green => 32
  | yellow => 33
  | blue => 34
  | magenta => 35
  | cyan => 36
  | white => 37
  | default => 39
  | brightBlack => 90
  | brightRed => 91
  | brightGreen => 92
  | brightYellow => 93
  | brightBlue => 94
  | brightMagenta => 95
  | brightCyan => 96
  | brightWhite => 97

end BasicColor

/-- A color: basic, or mixed from red, green and blue, whose amounts are not checked. -/
inductive Color where
  | basic (color : BasicColor)
  | rgb (red green blue : Int)
  deriving DecidableEq, Repr

/-- The two places that a color can be selected for. -/
inductive Ground where
  | foreground
  | background
  deriving DecidableEq, Repr

def selectRendition (parameters : String) : List Char :=
  ['\x1b', '['] ++ parameters.toList ++ ['m']

namespace Color

/-- The terminal's own color. -/
abbrev default : Color := basic .default

/-- The sequence that selects a color. A background code is ten above the foreground code. -/
def select : Ground → Color → List Char
  | .foreground, basic b => selectRendition (toString b.code)
  | .background, basic b => selectRendition (toString (b.code + 10))
  | .foreground, rgb r g b => selectRendition s!"38;2;{r};{g};{b}"
  | .background, rgb r g b => selectRendition s!"48;2;{r};{g};{b}"

def hexDigit? (c : Char) : Option Nat :=
  if '0' ≤ c ∧ c ≤ '9' then some (c.toNat - '0'.toNat)
  else if 'a' ≤ c ∧ c ≤ 'f' then some (c.toNat - 'a'.toNat + 10)
  else if 'A' ≤ c ∧ c ≤ 'F' then some (c.toNat - 'A'.toNat + 10)
  else none

def hexPair? (high low : Char) : Option Int := do
  return 16 * (← hexDigit? high) + (← hexDigit? low)

/-- Reads `#rrggbb`. -/
def hexColor? : List Char → Option Color
  | ['#', r₁, r₀, g₁, g₀, b₁, b₀] => do
    return rgb (← hexPair? r₁ r₀) (← hexPair? g₁ g₀) (← hexPair? b₁ b₀)
  | _ => none

/-- Letters outside ASCII whose upper case is made of ASCII letters. -/
def foldedLetters : List (Char × List Char) :=
  [('ß', ['S', 'S']), ('ı', ['I']), ('ſ', ['S']), ('ﬀ', ['F', 'F']), ('ﬁ', ['F', 'I']),
    ('ﬂ', ['F', 'L']), ('ﬃ', ['F', 'F', 'I']), ('ﬄ', ['F', 'F', 'L']), ('ﬅ', ['S', 'T']),
    ('ﬆ', ['S', 'T'])]

/-- A letter in upper case, as far as the result is ASCII; any other character is left alone. -/
def upperCase (c : Char) : List Char :=
  (foldedLetters.lookup c).getD [c.toUpper]

/-- The form in which names are compared: upper case, and `_` for `-`. -/
def nameKey (text : List Char) : List Char :=
  (text.flatMap upperCase).map fun c => if c = '-' then '_' else c

def named? (text : List Char) : Option Color :=
  (BasicColor.all.find? fun b => nameKey b.name.toList = nameKey text).map basic

/-- Reads a color: `#rrggbb`, or a name in any case, with white space around it. -/
def read (text : String) : Except Error Color :=
  let body := Text.trim text.toList
  match hexColor? body <|> named? body with
  | some color => .ok color
  | none => .error (.unknownColor text)

end Color

end Callout
