/-!
# Failures of a command

What a command says when it cannot do what it was asked to: a sentence, and the cause of it if there
is one.
-/

namespace EventTrace.CommandLine

structure Failure where
  message : String
  cause : Option String := none
deriving DecidableEq, Repr

def Failure.text (f : Failure) : String :=
  match f.cause with
  | none => f.message
  | some cause => f.message ++ "\n\nCaused by:\n    " ++ cause

/-- A name between the quotes of messages. -/
def ticked (name : String) : String := "`" ++ name ++ "`"

end EventTrace.CommandLine
