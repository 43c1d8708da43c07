/-!
# File errors

Why a system does not find, make or write a file, with the number that it has for each cause.
-/

namespace EventTrace.CommandLine

inductive FileError where
  | noEntry
  /-- Something is there already that is no directory. -/
  | occupied
  | notDirectory
  | isDirectory
  | nameTooLong
deriving DecidableEq, Repr

namespace FileError

def all : List FileError := [.noEntry, .occupied, .notDirectory, .isDirectory, .nameTooLong]

def number : FileError → Nat
  | .noEntry => 2
  | .occupied => 17
  | .notDirectory => 20
  | .isDirectory => 21
  | .nameTooLong => 36

def ofNumber? (n : Nat) : Option FileError := all.find? (·.number = n)

def phrase : FileError → String
  | .noEntry => "No such file or directory"
  | .occupied => "File exists"
  | .notDirectory => "Not a directory"
  | .isDirectory => "Is a directory"
  | .nameTooLong => "File name too long"

def message (e : FileError) : String := e.phrase ++ " (os error " ++ toString e.number ++ ")"

end FileError

end EventTrace.CommandLine
