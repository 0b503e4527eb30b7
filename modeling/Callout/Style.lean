import Callout.Color

namespace Callout

/-- A text attribute. -/
inductive Modifier where
  | reset | bold | faint | italic | underline | blinking | reverse | hidden | strikethrough
  deriving DecidableEq, Repr

namespace Modifier

/-- Every attribute, in the order in which they are selected. -/
def all : List Modifier :=
  [reset, bold, faint, italic, underline, blinking, reverse, hidden, strikethrough]

/-- The number that selects an attribute. Six, rapid blinking, is left out. -/
def code : Modifier → Nat
  | reset => 0
  | bold => 1
  | faint => 2
  | italic => 3
  | underline => 4
  | blinking => 5
  | reverse => 7
  | hidden => 8
  | strikethrough => 9

def select (chosen : List Modifier) : List Char :=
  (all.filter (· ∈ chosen)).flatMap fun m => selectRendition (toString m.code)

end Modifier

/-- Colors and attributes of a text. A style that is not enabled leaves texts as they are. -/
structure Style where
  foreground : Color := .default
  background : Color := .default
  modifiers : List Modifier := []
  enabled : Bool := true

namespace Style

def select (s : Style) : List Char :=
  if s.enabled then
    Modifier.select s.modifiers ++ s.foreground.select .foreground ++
      s.background.select .background
  else []

/-- The style of a terminal that nothing was selected on. -/
def plain : Style := { modifiers := [.reset] }

def reset (s : Style) : List Char :=
  if s.enabled then plain.select else []

/-- A text in a style. An empty text selects nothing. -/
def paint (s : Style) (text : List Char) : List Char :=
  if text.isEmpty then [] else s.select ++ text ++ s.reset

end Style

end Callout
