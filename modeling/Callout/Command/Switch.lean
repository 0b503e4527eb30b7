namespace Callout

/-- A switch that stands for an `α` once it has its values. -/
structure Switch (α : Type) where
  short : Option Char
  long : String
  arity : Nat
  make : List String → α

namespace Switch

variable {α : Type}

/-- Takes as many words as a switch needs, whatever they look like; the first may be attached to
the switch itself. -/
def takeValues (arity : Nat) (attached : Option String) (rest : List String) :
    Option (List String × List String) :=
  let words := attached.toList ++ rest
  if words.length < arity then none else some (words.take arity, words.drop arity)

/-- Reads letters behind one dash. A letter that takes values has the letters behind it for the
first of them. -/
def readLetters (switches : List (Switch α)) :
    List Char → List String → Option (List α × List String)
  | [], rest => some ([], rest)
  | c :: letters, rest => do
    let switch ← switches.find? fun s => s.short == some c
    if switch.arity = 0 then
      let (more, rest) ← readLetters switches letters rest
      return (switch.make [] :: more, rest)
    else
      let attached := if letters.isEmpty then none else some (String.ofList letters)
      let (values, rest) ← takeValues switch.arity attached rest
      return ([switch.make values], rest)

/-- Reads one word that begins with a dash. A value may follow the name after an equals sign. -/
def readWord (switches : List (Switch α)) (word : List Char) (rest : List String) :
    Option (List α × List String) :=
  let name := String.ofList (word.takeWhile (· != '='))
  let value := (word.dropWhile (· != '=')).tail?.map String.ofList
  match switches.find? fun s => s.long == name with
  | some switch =>
    if switch.arity = 0 then
      if value.isSome then none else some ([switch.make []], rest)
    else (takeValues switch.arity value rest).map fun r => ([switch.make r.1], r.2)
  | none =>
    match word with
    | '-' :: '-' :: _ => none
    | _ => readLetters switches word.tail rest

/-- The switches of a command line and the other words, in order. `--` ends the switches; so does
the first other word unless they may be mixed. -/
def readFrom (switches : List (Switch α)) (mixed : Bool) :
    (fuel : Nat) → List String → Option (List α × List String)
  | 0, _ => none
  | _ + 1, [] => some ([], [])
  | fuel + 1, word :: rest =>
    match word.toList with
    | ['-', '-'] => some ([], rest)
    | '-' :: c :: letters => do
      let (found, rest) ← readWord switches ('-' :: c :: letters) rest
      let (more, others) ← readFrom switches mixed fuel rest
      return (found ++ more, others)
    | _ =>
      if mixed then do
        let (found, others) ← readFrom switches mixed fuel rest
        return (found, word :: others)
      else some ([], word :: rest)

/-- The switches of a command line and the other words; nothing if some word is not understood. -/
def read (switches : List (Switch α)) (mixed : Bool) (words : List String) :
    Option (List α × List String) :=
  readFrom switches mixed (words.length + 1) words

end Switch

end Callout
