import Callout.Text.LineEnds
import Callout.Toml.Scalar

namespace Callout.Toml

def isIndent (c : Char) : Bool := c == ' ' || c == '\t'

/-- Control characters, which no text may hold as they are; a tab is none. -/
def isControl (c : Char) : Bool :=
  (c.toNat < 0x20 && c != '\t') || c.toNat == 0x7f

/-- A text without the spaces and tabs at its start. -/
def skipIndent (text : List Char) : List Char :=
  text.dropWhile isIndent

/-- Skips a comment, up to the end of its line. -/
def skipComment : List Char → Except Fault (List Char)
  | '#' :: rest =>
    if (rest.takeWhile (· != '\n')).any isControl then .error .malformed
    else .ok (rest.dropWhile (· != '\n'))
  | text => .ok text

def skipFiller (inComment : Bool) : List Char → Except Fault (List Char)
  | [] => .ok []
  | c :: rest =>
    if c = '\n' then skipFiller false rest
    else if inComment then
      if isControl c then .error .malformed else skipFiller true rest
    else if isIndent c then skipFiller false rest
    else if c = '#' then skipFiller true rest
    else .ok (c :: rest)

def hexCharacter (count : Nat) (text : List Char) : Except Fault (Char × List Char) :=
  let digits := text.take count
  let code := natural 16 digits
  if digits.length = count ∧ digits.all isHexadecimal ∧ code.isValidChar then
    .ok (Char.ofNat code, text.drop count)
  else .error .malformed

def escape : List Char → Except Fault (Char × List Char)
  | 'b' :: rest => .ok ('\x08', rest)
  | 't' :: rest => .ok ('\t', rest)
  | 'n' :: rest => .ok ('\n', rest)
  | 'f' :: rest => .ok ('\x0c', rest)
  | 'r' :: rest => .ok ('\r', rest)
  | '"' :: rest => .ok ('"', rest)
  | '\\' :: rest => .ok ('\\', rest)
  | 'u' :: rest => hexCharacter 4 rest
  | 'U' :: rest => hexCharacter 8 rest
  | _ => .error .malformed

/-- A text in double quotes, after the first of them. -/
def basicText : (fuel : Nat) → List Char → Except Fault (List Char × List Char)
  | 0, _ => .error .malformed
  | fuel + 1, text =>
    match text with
    | [] => .error .malformed
    | '"' :: rest => .ok ([], rest)
    | '\\' :: rest => do
      let (c, rest) ← escape rest
      let (more, rest) ← basicText fuel rest
      return (c :: more, rest)
    | c :: rest => do
      if isControl c then throw .malformed
      let (more, rest) ← basicText fuel rest
      return (c :: more, rest)

/-- A text in three double quotes, after the first line feed. A backslash at the end of a line hides
the white space up to the next character. -/
def longText : (fuel : Nat) → List Char → Except Fault (List Char × List Char)
  | 0, _ => .error .malformed
  | fuel + 1, text =>
    match text with
    | [] => .error .malformed
    | '"' :: '"' :: '"' :: rest => .ok ([], rest)
    | '\\' :: rest =>
      if rest.head?.any fun c => isIndent c || c == '\n' then
        match skipIndent rest with
        | '\n' :: rest => longText fuel (rest.dropWhile fun c => isIndent c || c == '\n')
        | _ => .error .malformed
      else do
        let (c, rest) ← escape rest
        let (more, rest) ← longText fuel rest
        return (c :: more, rest)
    | c :: rest => do
      if isControl c && c != '\n' then throw .malformed
      let (more, rest) ← longText fuel rest
      return (c :: more, rest)

/-- A text in single quotes, after the first of them. -/
def literalText (text : List Char) : Except Fault (List Char × List Char) :=
  let body := text.takeWhile (· != '\'')
  match text.dropWhile (· != '\'') with
  | _ :: rest => if body.any isControl then .error .malformed else .ok (body, rest)
  | [] => .error .malformed

/-- A text in three single quotes, after the first line feed. -/
def longLiteralText : List Char → Except Fault (List Char × List Char)
  | [] => .error .malformed
  | '\'' :: '\'' :: '\'' :: rest => .ok ([], rest)
  | c :: rest => do
    if isControl c && c != '\n' then throw .malformed
    let (more, rest) ← longLiteralText rest
    return (c :: more, rest)

/-- Up to two quotes that stand before the closing three belong to the text. -/
def closeLong (quote : Char) (body rest : List Char) : List Char × List Char :=
  let extra := (rest.take 2).takeWhile (· == quote)
  (body ++ extra, rest.drop extra.length)

/-- A text without a line feed at its start. -/
def skipLineFeed : List Char → List Char
  | '\n' :: rest => rest
  | text => text

/-- A text in quotes of any kind, or nothing if no quote comes first. -/
def quotedText? (fuel : Nat) (text : List Char) :
    Option (Except Fault (List Char × List Char)) :=
  match text with
  | '"' :: '"' :: '"' :: rest =>
    some ((longText fuel (skipLineFeed rest)).map fun r => closeLong '"' r.1 r.2)
  | '\'' :: '\'' :: '\'' :: rest =>
    some ((longLiteralText (skipLineFeed rest)).map fun r => closeLong '\'' r.1 r.2)
  | '"' :: rest => some (basicText fuel rest)
  | '\'' :: rest => some (literalText rest)
  | _ => none

def isBareKey (c : Char) : Bool :=
  isDecimal c || ('a' ≤ c && c ≤ 'z') || ('A' ≤ c && c ≤ 'Z') || c == '-' || c == '_'

def key (fuel : Nat) (text : List Char) : Except Fault (String × List Char) :=
  match text with
  | '"' :: rest => (basicText fuel rest).map fun r => (String.ofList r.1, r.2)
  | '\'' :: rest => (literalText rest).map fun r => (String.ofList r.1, r.2)
  | _ =>
    let word := text.takeWhile isBareKey
    if word.isEmpty then .error .malformed
    else .ok (String.ofList word, text.dropWhile isBareKey)

/-- Keys with points between them, and the blanks after them. -/
def path (parents : List String) : (fuel : Nat) → List Char → Except Fault (Path × List Char)
  | 0, _ => .error .malformed
  | fuel + 1, text => do
    let (last, rest) ← key fuel text
    match skipIndent rest with
    | '.' :: rest => path (parents ++ [last]) fuel (skipIndent rest)
    | rest => return (⟨parents, last⟩, rest)

/-- How deep values may nest, in levels that count twice for an array and three times for a table in
braces. -/
def maxNesting : Nat := 980

/-- What is left of some room after a value inside another one takes its part. -/
def enter (levels room : Nat) : Except Fault Nat :=
  if levels ≤ room then .ok (room - levels) else .error .nestedTooDeep

mutual

/-- A value, which has some room to nest others. -/
def value (room : Nat) : (fuel : Nat) → List Char → Except Fault (Value × List Char)
  | 0, _ => .error .malformed
  | fuel + 1, text =>
    match quotedText? fuel text with
    | some found => found.map fun r => (.text (String.ofList r.1), r.2)
    | none =>
      match text with
      | '[' :: rest => do
        let room ← enter 2 room
        match ← skipFiller false rest with
        | ']' :: rest => return (.array [], rest)
        | rest => do
          let (items, rest) ← arrayItems room fuel rest
          return (.array items, rest)
      | '\x7b' :: rest => do
        let room ← enter 3 room
        match skipIndent rest with
        | '\x7d' :: rest => return (.table .inline [], rest)
        | rest => do
          let (entries, rest) ← inlineEntries room fuel [] rest
          return (.table .inline entries, rest)
      | _ => scalar text

/-- The items of an array, from one of them to the closing bracket. A comma may close the list. -/
def arrayItems (room : Nat) : (fuel : Nat) → List Char → Except Fault (List Value × List Char)
  | 0, _ => .error .malformed
  | fuel + 1, text => do
    let (item, rest) ← value room fuel text
    match ← skipFiller false rest with
    | ']' :: rest => return ([item], rest)
    | ',' :: rest =>
      match ← skipFiller false rest with
      | ']' :: rest => return ([item], rest)
      | rest => do
        let (items, rest) ← arrayItems room fuel rest
        return (item :: items, rest)
    | _ => throw .malformed

/-- The entries of a table in braces, from one of them to the closing brace, after `entries`. -/
def inlineEntries (room : Nat) :
    (fuel : Nat) → Entries → List Char → Except Fault (Entries × List Char)
  | 0, _, _ => .error .malformed
  | fuel + 1, entries, text => do
    let (path, item, rest) ← pair room fuel text
    let entries ← Entries.assign item path.last path.parents entries
    match skipIndent rest with
    | '\x7d' :: rest => return (entries, rest)
    | ',' :: rest => inlineEntries room fuel entries (skipIndent rest)
    | _ => throw .malformed

def pair (room : Nat) : (fuel : Nat) → List Char → Except Fault (Path × Value × List Char)
  | 0, _ => .error .malformed
  | fuel + 1, text => do
    let (path, rest) ← path [] fuel text
    match rest with
    | '=' :: rest => do
      let (item, rest) ← value room fuel (skipIndent rest)
      return (path, item, rest)
    | _ => throw .malformed

end

/-- One statement: a heading of either kind, or a key with its value. -/
def statement (fuel : Nat) (d : Document) (text : List Char) :
    Except Fault (Document × List Char) :=
  match text with
  | '[' :: '[' :: rest => do
    let (path, rest) ← path [] fuel (skipIndent rest)
    let d ← d.enterMember path
    match rest with
    | ']' :: ']' :: rest => return (d, rest)
    | _ => throw .malformed
  | '[' :: rest => do
    let (path, rest) ← path [] fuel (skipIndent rest)
    let d ← d.enterTable path
    match rest with
    | ']' :: rest => return (d, rest)
    | _ => throw .malformed
  | _ => do
    let (path, item, rest) ← pair maxNesting fuel text
    let d ← d.set path item
    return (d, rest)

def statements (lineFuel : Nat) : (fuel : Nat) → Document → List Char → Except Fault Document
  | 0, _, _ => .error .malformed
  | fuel + 1, d, text => do
    let start := skipIndent text
    let (d, rest) ←
      match start with
      | [] | '\n' :: _ | '#' :: _ => pure (d, start)
      | _ => statement lineFuel d start
    match ← skipComment (skipIndent rest) with
    | [] => return d
    | '\n' :: rest => statements lineFuel fuel d rest
    | _ => throw .malformed

/-- The entries of a document. Each reader gives back what it leaves of its text, and with four units
of fuel for a character none of them can run out. -/
def read (text : List Char) : Except Fault Entries := do
  let text := Text.unifyLineEnds text
  let d ← statements (4 * text.length + 4) (text.length + 1) {} text
  return d.root

end Callout.Toml
