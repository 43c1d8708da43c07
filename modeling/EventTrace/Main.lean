import EventTrace.CommandLine.FileError
import EventTrace.CommandLine.Path
import EventTrace.CommandLine.Run

/-!
# The program

The commands on the machine that the program runs on.
-/

namespace EventTrace.CommandLine.Native

partial def readAll (stream : IO.FS.Stream) (done : ByteArray) : IO ByteArray := do
  let more ← stream.read 65536
  if more.isEmpty then return done else readAll stream (done ++ more)

def readFile (path : String) : IO Content := do
  match ← (IO.FS.Handle.mk path .read).toBaseIO with
  | .error _ => return .absent
  | .ok handle =>
    match ← handle.readBinToEnd.toBaseIO with
    | .error _ => return .unreadable
    | .ok data => return .data data.toList

def readInput : IO Content := do
  match ← (do readAll (← IO.getStdin) .empty : IO ByteArray).toBaseIO with
  | .error _ => return .unreadable
  | .ok data => return .data data.toList

def fileError? : IO.Error → Option FileError
  | .alreadyExists _ n _ | .noFileOrDirectory _ n _ | .invalidArgument _ n _
  | .inappropriateType _ n _ => FileError.ofNumber? n.toNat
  | _ => none

/-- The text of the error that an action ends with, if it does. -/
def errorText (action : IO Unit) : IO (Option String) := do
  match ← action.toBaseIO with
  | .ok () => return none
  | .error e => return some ((fileError? e).elim (toString e) FileError.message)

def makeParents (path : String) : IO (Option String) :=
  match (Path.ofString? path).bind Path.parent? with
  | none => return none
  | some parent => do
    match ← readFile parent.text with
    | .absent => errorText (IO.FS.createDirAll parent.text)
    | _ => return none

def host : Host IO where
  readFile
  readInput
  makeParents
  writeFile path text := errorText (IO.FS.writeFile path text)
  print text := do (← IO.getStdout).putStr text
  complain text := do (← IO.getStderr).putStr text

end EventTrace.CommandLine.Native

def main (args : List String) : IO UInt32 :=
  EventTrace.CommandLine.run EventTrace.CommandLine.Native.host args
