import Callout.Decimal.Shortest
import Callout.Text.Quoted
import Callout.Toml.Moment

namespace Callout.Toml

/-- How a table came to be, which decides how it may still grow: one written in braces never does,
one made on the way to another by a heading may get a heading of its own, one made by a dotted key
takes further dotted keys, one with a heading takes no dotted keys from outside. -/
inductive Origin where
  | inline
  | implied
  | dotted
  | declared
  deriving DecidableEq, Repr

/-- A value. Tables keep their entries in the order of the file; `tables` is an array whose members
each have a heading. -/
inductive Value where
  | boolean (value : Bool)
  | integer (value : Int)
  | float (value : Binary64)
  | text (value : String)
  | moment (value : Moment)
  | array (items : List Value)
  | tables (items : List Value)
  | table (origin : Origin) (entries : List (String × Value))

/-- The entries of a table. -/
abbrev Entries := List (String × Value)

namespace Entries

/-- Puts a value in the place of the one that a key has. -/
def replace (entries : Entries) (key : String) (value : Value) : Entries :=
  entries.map fun e => if e.1 = key then (key, value) else e

def sorted (entries : Entries) : Entries :=
  entries.mergeSort fun a b => a.1 ≤ b.1

end Entries

namespace Value

/-- Whether a setting counts as switched on: all but false, zero and what is empty. -/
def isOn : Value → Bool
  | boolean value => value
  | integer value => value != 0
  | float value => !value.isZero
  | text value => !value.isEmpty
  | moment _ => true
  | array items | tables items => !items.isEmpty
  | table _ entries => !entries.isEmpty

mutual

def literal : Value → String
  | boolean value => if value then "True" else "False"
  | integer value => toString value
  | float value => String.ofList (Decimal.text value)
  | text value => Text.quoted value
  | moment value => value.literal
  | array items => "[" ++ ", ".intercalate (literals items) ++ "]"
  | tables items => "[" ++ ", ".intercalate (literals items) ++ "]"
  | table _ entries => "\x7b" ++ ", ".intercalate (entryLiterals entries) ++ "\x7d"

def literals : List Value → List String
  | [] => []
  | value :: rest => literal value :: literals rest

def entryLiterals : List (String × Value) → List String
  | [] => []
  | (key, value) :: rest => (Text.quoted key ++ ": " ++ literal value) :: entryLiterals rest

end

/-- What keeps a value from being shown. -/
inductive Obstacle where
  | tooManyDigits
  | nestedTooDeep
  deriving DecidableEq, Repr

mutual

/-- The first thing, in the order of the text, that keeps a value from being shown: a whole number
that is not less than `bound`, or a value nested deeper than the room there is. -/
def obstacle? (bound room : Nat) : Value → Option Obstacle
  | integer value => if value.natAbs < bound then none else some .tooManyDigits
  | array items | tables items =>
    if room = 0 then some .nestedTooDeep else itemObstacle? bound (room - 1) items
  | table _ entries =>
    if room = 0 then some .nestedTooDeep else entryObstacle? bound (room - 1) entries
  | boolean _ | float _ | text _ | moment _ => none

/-- The first thing that keeps some values from being shown. -/
def itemObstacle? (bound room : Nat) : List Value → Option Obstacle
  | [] => none
  | value :: rest => (obstacle? bound room value).or (itemObstacle? bound room rest)

/-- The first thing that keeps some entries from being shown. -/
def entryObstacle? (bound room : Nat) : List (String × Value) → Option Obstacle
  | [] => none
  | (_, value) :: rest => (obstacle? bound room value).or (entryObstacle? bound room rest)

end

end Value

end Callout.Toml
