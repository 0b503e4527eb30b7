namespace Callout

/-- The names in a path, with an empty one wherever slashes meet or end the path. -/
def pathNames (path : String) : List String :=
  (path.toList.splitOn '/').map String.ofList

/-- Whether a path starts at the root of the file system. -/
def isAbsolute (path : String) : Bool :=
  path.toList.head? == some '/'

/-- The slashes at the start of a path, as they are kept: just two stay two, any more count as
one. -/
def rootText (path : String) : String :=
  match (path.toList.takeWhile (· == '/')).length with
  | 0 => ""
  | 2 => "//"
  | _ => "/"

def normalPath (path : String) : String :=
  let names := (pathNames path).filter fun name => name != "" && name != "."
  let text := rootText path ++ "/".intercalate names
  if text.isEmpty then "." else text

def maxPathBytes : Nat := 4096

def maxNameBytes : Nat := 255

/-- A file with its bytes, or a directory with its entries. -/
inductive FileTree where
  | file (content : List UInt8)
  | directory (entries : List (String × FileTree))

namespace FileTree

def empty : FileTree := directory []

/-- What stands at a place, the list of the names that lead to it from the root. -/
def at? : FileTree → List String → Option FileTree
  | tree, [] => some tree
  | file _, _ :: _ => none
  | directory entries, name :: rest => (entries.lookup name).bind fun below => below.at? rest

def content? : FileTree → Option (List UInt8)
  | file content => some content
  | directory _ => none

/-- A tree with `leaf` at a place. Directories on the way are made; files are not replaced by
directories. -/
def insert (leaf : FileTree) : List String → FileTree → FileTree
  | [], tree =>
    match leaf, tree with
    | directory [], directory entries => directory entries
    | _, _ => leaf
  | name :: rest, tree =>
    match tree with
    | file content => file content
    | directory entries =>
      match entries.lookup name with
      | none => directory (entries ++ [(name, insert leaf rest empty)])
      | some below =>
        directory (entries.map fun e => if e.1 = name then (name, insert leaf rest below) else e)

/-- Follows names from the place `here` as the system does: each name has to stand in a directory,
and nothing is above the root. -/
def follow (tree : FileTree) (here : List String) : List String → Option (List String)
  | [] => some here
  | name :: rest =>
    match tree.at? here with
    | some (.directory _) =>
      if name = "" ∨ name = "." then tree.follow here rest
      else if name = ".." then tree.follow here.dropLast rest
      else
        let next := here ++ [name]
        if (tree.at? next).isSome then tree.follow next rest else none
    | _ => none

/-- Whether a place cannot be looked up because one of its names, in a directory, is too long. -/
def hasLongName : FileTree → List String → Bool
  | file _, _ => false
  | directory _, [] => false
  | directory entries, name :: rest =>
    match entries.lookup name with
    | some below => below.hasLongName rest
    | none => maxNameBytes < name.utf8ByteSize

/-- The place that names stand for, seen from `here` and taken as written: `..` undoes the name
before it, whether or not that name leads anywhere. -/
def resolve (here : List String) : List String → List String
  | [] => here
  | name :: rest =>
    if name = "" ∨ name = "." then resolve here rest
    else if name = ".." then resolve here.dropLast rest
    else resolve (here ++ [name]) rest

/-- The place of the directory that a file is in; any other place stays as it is. -/
def directoryOf (tree : FileTree) (place : List String) : List String :=
  match tree.at? place with
  | some (.file _) => place.dropLast
  | _ => place

/-- The entry `name` of the nearest directory that has one, from the place whose names are `upward`,
last name first. -/
def nearestUpward (tree : FileTree) (name : String) : List String → Option (List String)
  | [] => if (tree.at? [name]).isSome then some [name] else none
  | last :: upward =>
    let place := (last :: upward).reverse ++ [name]
    if (tree.at? place).isSome then some place else tree.nearestUpward name upward

/-- The entry `name` nearest to a place, upward from its directory. -/
def nearest? (tree : FileTree) (name : String) (place : List String) : Option (List String) :=
  tree.nearestUpward name (tree.directoryOf place).reverse

end FileTree

def pathOf (place : List String) : String :=
  "/" ++ "/".intercalate place

/-- The files that a program sees, and the place of the directory that it works in. -/
structure Files where
  tree : FileTree
  here : List String := []

namespace Files

def start (f : Files) (path : String) : List String :=
  if isAbsolute path then [] else f.here

/-- The bytes of the file that a path leads to. -/
def read? (f : Files) (path : String) : Option (List UInt8) := do
  if path.isEmpty ∨ maxPathBytes ≤ path.utf8ByteSize then none
  let place ← f.tree.follow (f.start path) (pathNames path)
  (← f.tree.at? place).content?

/-- The place that a path stands for as it is written. -/
def place (f : Files) (path : String) : List String :=
  FileTree.resolve (f.start path) (pathNames path)

end Files

end Callout
