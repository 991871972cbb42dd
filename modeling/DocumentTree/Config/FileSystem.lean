import DocumentTree.Text.Basic
import DocumentTree.Value.Display

/-!
# Files below a directory

Configuration is read from files below one top directory. Paths are sequences of steps from there; a
step `..` goes back up. Where a path is walked, every directory on the way has to exist; where it is
resolved, `..` just takes back the step before.

## Main definitions

* `Path`, `Path.ofString`, `Path.resolve?` — paths, and paths without `..`.
* `Entry`, `FileSystem` — files and directories.
* `FileSystem.find?`, `FileSystem.isFile` — what is at the end of a path.
* `Path.fileName`, `Path.suffix` — the last step, and its part from the last dot on.
-/

namespace DocumentTree

/-! ## Paths -/

/-- A path, as its steps from the top directory. -/
abbrev Path := List String

namespace Path

/-- The path that a string writes with slashes. Empty steps and single dots go nowhere. -/
def ofString (s : String) : Path :=
  ((Text.splitOn '/' s.toList).map String.ofList).filter fun step => step ≠ "" && step ≠ "."

/-- The string of a path below a named top directory. -/
def toString (top : String) (p : Path) : String :=
  "/".intercalate (top :: p)

/-- The steps of a path without `..`, after those that have been made; there are none if the path
leads out of the top directory. -/
def resolveFrom? (made : List String) : Path → Option Path
  | [] => some made.reverse
  | step :: rest =>
    if step = ".." then
      match made with
      | [] => none
      | _ :: made => resolveFrom? made rest
    else resolveFrom? (step :: made) rest

/-- The path without `..`, unless it leads out of the top directory. -/
def resolve? (p : Path) : Option Path :=
  resolveFrom? [] p

/-- A path and the directories above it, nearest first. -/
def upward (p : Path) : List Path :=
  (List.range (p.length + 1)).reverse.map fun n => p.take n

/-- The last step of a path. -/
def fileName (p : Path) : String :=
  p.getLast?.getD ""

/-- The part of a file name from its last dot on. A dot at either end of the name starts no
suffix. -/
def suffix (p : Path) : String :=
  let name := (fileName p).toList
  let back := name.reverse.takeWhile (· ≠ '.')
  if back.isEmpty || name.length ≤ back.length + 1 then ""
  else String.ofList ('.' :: back.reverse)

end Path

/-! ## Files -/

/-- A file or a directory. -/
inductive Entry where
  | file (bytes : ByteArray)
  | directory (entries : List (String × Entry))

namespace Entry

/-- The entry with a name in a directory. -/
def lookup (name : String) : List (String × Entry) → Option Entry
  | [] => none
  | (n, entry) :: rest => if n = name then some entry else lookup name rest

/-- A name set to an entry. -/
def put (name : String) (entry : Entry) : List (String × Entry) → List (String × Entry)
  | [] => [(name, entry)]
  | (n, old) :: rest => if n = name then (n, entry) :: rest else (n, old) :: put name entry rest

/-- The entries of a directory; a file has none. -/
def entries : Entry → List (String × Entry)
  | file _ => []
  | directory entries => entries

/-- A directory with an entry put under a path, and the parents that are still missing. A directory
that is there already stays. -/
def add (new : Entry) : Path → Entry → Entry
  | [], old =>
    match new, old with
    | directory [], directory entries => directory entries
    | new, _ => new
  | step :: rest, old =>
    let inner := (lookup step old.entries).getD (directory [])
    directory (put step (add new rest inner) old.entries)

/-- What is at the end of a path from a directory, given the directories above it, nearest first.
Above the top directory there is nothing. -/
def walk? (above : List Entry) (e : Entry) : Path → Option Entry
  | [] => some e
  | step :: rest =>
    match e with
    | file _ => none
    | directory entries =>
      if step = ".." then
        match above with
        | [] => walk? [] (directory []) rest
        | parent :: above => walk? above parent rest
      else
        match lookup step entries with
        | none => none
        | some inner => walk? (e :: above) inner rest

end Entry

/-- The files below a top directory. -/
structure FileSystem where
  /-- The name of the top directory. -/
  top : String
  /-- What is in it. -/
  content : Entry := .directory []

namespace FileSystem

/-- The file system with an entry under a path. -/
def add (fs : FileSystem) (p : Path) (e : Entry) : FileSystem :=
  { fs with content := Entry.add e p fs.content }

/-- What is at the end of a path. -/
def find? (fs : FileSystem) (p : Path) : Option Entry :=
  fs.content.walk? [] p

/-- Whether a file is at the end of a path. -/
def isFile (fs : FileSystem) (p : Path) : Bool :=
  match fs.find? p with
  | some (.file _) => true
  | _ => false

/-- The string of a path. -/
def shown (fs : FileSystem) (p : Path) : String :=
  p.toString fs.top

/-- Why a file cannot be opened for writing, if it cannot. -/
def obstacle? (fs : FileSystem) (p : Path) : Option String :=
  let named := fun number words =>
    some (s!"[Errno {number}] {words}: " ++ (Value.str (fs.shown p)).quotedString)
  match fs.find? p, fs.find? p.dropLast with
  | some (.directory _), _ => named 21 "Is a directory"
  | some (.file _), _ => none
  | none, some (.directory _) => none
  | none, some (.file _) => named 20 "Not a directory"
  | none, none => named 2 "No such file or directory"

end FileSystem

end DocumentTree
