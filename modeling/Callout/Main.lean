import Callout.Command.Run

namespace Callout

def readEntry (path : String) : IO (Option FileTree) := do
  try
    let bytes ← IO.FS.readBinFile path
    return some (.file bytes.toList)
  catch
    | .inappropriateType .. => return some .empty
    | _ => return none

/-- Adds what stands at a place of the file system. -/
def loadPlace (files : Files) (place : List String) : IO Files := do
  match ← readEntry (pathOf place) with
  | some entry => return { files with tree := entry.insert place files.tree }
  | none => return files

/-- Adds what a path leads to, and what it leads through. -/
def loadPath (files : Files) (path : String) : IO Files :=
  let names := pathNames path
  let places := (List.range (names.length + 1)).map fun n =>
    FileTree.resolve (files.start path) (names.take n)
  places.foldlM loadPlace files

/-- Adds the settings files that may be nearest to a path. -/
def loadSettings (files : Files) (path : String) : IO Files :=
  let place := files.place path
  let above := (List.range (place.length + 1)).map fun n => place.take n ++ [Settings.fileName]
  above.foldlM loadPlace files

def loadFiles (words : List String) : IO Files := do
  let directory := toString (← IO.currentDir)
  let here := (pathNames directory).filter fun name => name != ""
  let files : Files := ⟨FileTree.empty.insert here .empty, here⟩
  match Command.invocation? words with
  | some (_, .render found operands) =>
    let files ← (operands ++ (Command.configPath found).toList).foldlM loadPath files
    operands.foldlM loadSettings files
  | some (_, .lines operands) => operands.foldlM loadPath files
  | _ => return files

end Callout

def main (words : List String) : IO UInt32 := do
  let files ← Callout.loadFiles words
  let wording := "the settings file cannot be used"
  match Callout.Command.run files words wording with
  | .usage =>
    IO.eprintln "Usage: reportz [-v] (render | lines | demo) [OPTIONS] [FILE]"
    return 2
  | .finished status output errors =>
    IO.eprint errors
    IO.print output
    return UInt32.ofNat status
  | .stopped fault errors =>
    IO.eprint errors
    IO.eprintln (fault.message wording)
    return 1
