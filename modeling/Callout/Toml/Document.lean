import Callout.Toml.Value

namespace Callout.Toml

/-- Why a document is refused. -/
inductive Fault where
  | malformed
  | nestedTooDeep
  | tooManyDigits (count : Nat)
  deriving DecidableEq, Repr

namespace Entries

/-- The entries a heading leads on to through `value`: those of a table, or of the last of several
tables. Gives them together with the way to put changed ones back. -/
def descend : Value → Except Fault (Entries × (Entries → Value))
  | .table origin entries =>
    if origin = .inline then .error .malformed else .ok (entries, .table origin)
  | .tables items =>
    match items.getLast? with
    | some (.table origin entries) =>
      .ok (entries, fun changed => .tables (items.dropLast ++ [.table origin changed]))
    | _ => .error .malformed
  | _ => .error .malformed

/-- Changes the table that a heading's path leads to, making tables on the way. -/
def changeAt (change : Entries → String → Except Fault Entries) (last : String) :
    List String → Entries → Except Fault Entries
  | [], entries => change entries last
  | key :: path, entries =>
    match entries.lookup key with
    | none => do
      let below ← changeAt change last path []
      return entries ++ [(key, .table .implied below)]
    | some value => do
      let (below, rebuild) ← descend value
      let changed ← changeAt change last path below
      return entries.replace key (rebuild changed)

/-- Adds a table with a heading, or gives a heading to a table made on the way to another. -/
def declareTable (entries : Entries) (key : String) : Except Fault Entries :=
  match entries.lookup key with
  | none => .ok (entries ++ [(key, .table .declared [])])
  | some (.table .implied below) => .ok (entries.replace key (.table .declared below))
  | some _ => .error .malformed

/-- Adds an empty table to an array of tables. -/
def appendTable (entries : Entries) (key : String) : Except Fault Entries :=
  let empty : Value := .table .declared []
  match entries.lookup key with
  | none => .ok (entries ++ [(key, .tables [empty])])
  | some (.tables items) => .ok (entries.replace key (.tables (items ++ [empty])))
  | some _ => .error .malformed

/-- Adds a value under a dotted key, making tables on the way. -/
def assign (value : Value) (last : String) : List String → Entries → Except Fault Entries
  | [], entries =>
    if (entries.lookup last).isSome then .error .malformed else .ok (entries ++ [(last, value)])
  | key :: path, entries =>
    match entries.lookup key with
    | none => do
      let below ← assign value last path []
      return entries ++ [(key, .table .dotted below)]
    | some (.table .implied below) | some (.table .dotted below) => do
      let changed ← assign value last path below
      return entries.replace key (.table .dotted changed)
    | some _ => .error .malformed

/-- Changes the table that the path of the current heading leads to. -/
def within (change : Entries → Except Fault Entries) : List String → Entries → Except Fault Entries
  | [], entries => change entries
  | key :: path, entries =>
    match entries.lookup key with
    | none => .error .malformed
    | some value => do
      let (below, rebuild) ← descend value
      let changed ← within change path below
      return entries.replace key (rebuild changed)

end Entries

/-- A path of at least one key. -/
structure Path where
  parents : List String
  last : String

def Path.keys (p : Path) : List String :=
  p.parents ++ [p.last]

/-- A document while it is read: its table, and the heading that keys belong under. -/
structure Document where
  root : Entries := []
  heading : List String := []

namespace Document

def enterTable (d : Document) (path : Path) : Except Fault Document := do
  let root ← Entries.changeAt Entries.declareTable path.last path.parents d.root
  return ⟨root, path.keys⟩

/-- Enters a new member of an array of tables by its heading. -/
def enterMember (d : Document) (path : Path) : Except Fault Document := do
  let root ← Entries.changeAt Entries.appendTable path.last path.parents d.root
  return ⟨root, path.keys⟩

/-- Adds a value under a key of the current table. -/
def set (d : Document) (path : Path) (value : Value) : Except Fault Document := do
  let root ← Entries.within (Entries.assign value path.last path.parents) d.heading d.root
  return { d with root }

end Document

end Callout.Toml
