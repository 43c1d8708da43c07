import EventTrace.CommandLine.FileError
import EventTrace.CommandLine.Host
import EventTrace.CommandLine.Path
import EventTrace.Text.Utf8

/-!
# File trees

A host that is a value: all files and directories that there are, the directory where paths start,
the input that is waiting, and what was written.
-/

namespace EventTrace.CommandLine

structure FileTree where
  files : List (List String × Bytes) := []
  directories : List (List String) := []
  /-- Where relative paths start; this directory and those above it are there. -/
  start : List String := []

namespace FileTree

/-- What a path leads to. -/
inductive Place where
  | directory (spot : List String)
  | file (spot : List String) (data : Bytes)
  /-- Nothing, in a directory that is there. -/
  | free (spot : List String)
  /-- The path leads nowhere. -/
  | lost (cause : FileError)
deriving DecidableEq

/-- Why a file is not written at a path that goes on behind a place as only that of a directory
can. -/
def Place.refusal : Place → FileError
  | .directory _ => .isDirectory
  | .file _ _ => .notDirectory
  | .free _ => .noEntry
  | .lost cause => cause

def greatestName : Nat := 255

def greatestPath : Nat := 4095

def file? (t : FileTree) (spot : List String) : Option Bytes := t.files.lookup spot

def hasDirectory (t : FileTree) (spot : List String) : Bool :=
  spot.isPrefixOf t.start || t.directories.contains spot

def origin (t : FileTree) (p : Path) : List String := if p.absolute then [] else t.start

def follow (t : FileTree) (current : List String) : List String → Place
  | [] => .directory current
  | ".." :: rest => t.follow current.dropLast rest
  | name :: rest =>
    let next := current ++ [name]
    if greatestName < name.utf8ByteSize then .lost .nameTooLong
    else if t.hasDirectory next then t.follow next rest
    else
      match t.file? next with
      | some data => if rest.isEmpty then .file next data else .lost .notDirectory
      | none => if rest.isEmpty then .free next else .lost .noEntry

/-- What the parts of a path lead to, however it ends. -/
def reach (t : FileTree) (p : Path) : Place := t.follow (t.origin p) p.parts

/-- What a path leads to. A file has no path that only a directory can have. -/
def find (t : FileTree) (p : Path) : Place :=
  match t.reach p, p.ending with
  | .file spot data, .plain => .file spot data
  | .file _ _, _ => .lost .notDirectory
  | place, _ => place

def look (t : FileTree) (path : String) : Place :=
  if greatestPath < path.utf8ByteSize then .lost .nameTooLong
  else
    match Path.ofString? path with
    | none => .lost .noEntry
    | some p => t.find p

def read (t : FileTree) (path : String) : Content :=
  match t.look path with
  | .directory _ => .unreadable
  | .file _ data => .data data
  | _ => .absent

/-! ## Changes -/

def makeDirectory (t : FileTree) (p : Path) : Except FileError FileTree :=
  if greatestPath < p.text.utf8ByteSize then .error .nameTooLong
  else
    match t.reach p with
    | .directory _ => .ok t
    | .free spot => .ok { t with directories := t.directories ++ [spot] }
    | .file _ _ => .error .occupied
    | .lost cause => .error cause

/-- Makes the directory that some parts in reverse lead to. Those above it are made only if it cannot
be made without. -/
def makeDirectories (t : FileTree) (absolute : Bool) : List String → Except FileError FileTree
  | [] => .ok t
  | name :: above =>
    let p : Path := ⟨absolute, (name :: above).reverse, .plain⟩
    match t.makeDirectory p with
    | .error .noEntry => (t.makeDirectories absolute above).bind (·.makeDirectory p)
    | made => made

/-- Makes all directories that a path needs; one that is there already in any form is left alone. -/
def makeParents (t : FileTree) (path : String) : Except FileError FileTree :=
  match (Path.ofString? path).bind Path.parent? with
  | none => .ok t
  | some p =>
    match t.find p with
    | .directory _ | .file _ _ => .ok t
    | _ => t.makeDirectories p.absolute p.parts.reverse

def put (t : FileTree) (spot : List String) (data : Bytes) : FileTree :=
  { t with files := (spot, data) :: t.files.filter (·.1 ≠ spot) }

/-- Replaces or makes the file of a path. With a slash at its end the last part is not even looked
for. -/
def writePath (t : FileTree) (p : Path) (text : String) : Except FileError FileTree :=
  match p.ending, t.reach p with
  | .plain, .file spot _ | .plain, .free spot => .ok (t.put spot (Utf8.encode text))
  | .slash, _ => .error (t.follow (t.origin p) p.parts.dropLast).refusal
  | _, place => .error place.refusal

def write (t : FileTree) (path text : String) : Except FileError FileTree :=
  if greatestPath < path.utf8ByteSize then .error .nameTooLong
  else
    match Path.ofString? path with
    | none => .error .noEntry
    | some p => t.writePath p text

end FileTree

structure Machine where
  tree : FileTree
  input : Bytes := []
  /-- The files that hand out the input. -/
  inlets : List (List String) := []
  output : String := ""
  complaints : String := ""

namespace Machine

def change (f : FileTree → Except FileError FileTree) : StateM Machine (Option String) := fun s =>
  match f s.tree with
  | .ok tree => (none, { s with tree })
  | .error e => (some e.message, s)

/-- Takes the input, which is there only once. -/
def takeInput : StateM Machine Content := fun s => (.data s.input, { s with input := [] })

def readFile (path : String) : StateM Machine Content := fun s =>
  match s.tree.look path with
  | .file spot _ => if s.inlets.contains spot then takeInput s else (s.tree.read path, s)
  | _ => (s.tree.read path, s)

def host : Host (StateM Machine) where
  readFile
  readInput := takeInput
  makeParents path := change fun t => t.makeParents path
  writeFile path text := change fun t => t.write path text
  print text := fun s => ((), { s with output := s.output ++ text })
  complain text := fun s => ((), { s with complaints := s.complaints ++ text })

end Machine

end EventTrace.CommandLine
