/-!
# Paths

The names of files as a user writes them: parts between slashes, where empty parts and single points
mean nothing, and two points mean the directory above. How a path ends says whether only a directory
can have it.
-/

namespace EventTrace.CommandLine

/-- What stands behind the last part of a path. -/
inductive PathEnding where
  | plain
  | slash
  /-- A single point, so that the last part is one that the path goes through. -/
  | point
deriving DecidableEq, Repr

structure Path where
  /-- Whether the path starts at the root of all files. -/
  absolute : Bool
  parts : List String
  ending : PathEnding
deriving DecidableEq, Repr

namespace Path

def isStep (part : List Char) : Bool := part ≠ [] && part ≠ ['.']

def endingOf (pieces : List (List Char)) : PathEnding :=
  if (pieces.filter (· ≠ [])).getLast? = some ['.'] then .point
  else if pieces.getLast? = some [] then .slash
  else .plain

/-- The path that a text spells, if it is not empty. -/
def ofString? (s : String) : Option Path :=
  match s.toList with
  | [] => none
  | c :: cs =>
    let pieces := (c :: cs).splitOnP (· = '/')
    some ⟨c = '/', (pieces.filter isStep).map String.ofList, endingOf pieces⟩

/-- The directory that a path's last part is in, unless that is the one where paths start. -/
def parent? (p : Path) : Option Path :=
  match p.parts.dropLast with
  | [] => none
  | parts => some ⟨p.absolute, parts, .plain⟩

def text (p : Path) : String := (if p.absolute then "/" else "") ++ "/".intercalate p.parts

end Path

end EventTrace.CommandLine
