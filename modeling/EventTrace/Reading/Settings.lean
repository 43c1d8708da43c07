import EventTrace.Text.Codec
import EventTrace.Text.Quoted

/-!
# Settings of a reader

How the fields of records are read. Settings are equal when all of their members are.
-/

namespace EventTrace

structure Settings where
  /-- How many records are looked at in parallel; zero leaves the number open. No result depends
  on it. -/
  threads : Nat := 0
  /-- The encoding of single-byte strings. -/
  codec : Codec := .windows1252
  /-- Whether a string that should have a terminator must have one. -/
  strict : Bool := false
deriving DecidableEq, Repr

def Settings.inspect (s : Settings) : String :=
  Text.membered "ParserSettings"
    [("num_threads", toString s.threads),
      ("ansi_codec", Text.quoted s.codec.name),
      ("strict_terminators", if s.strict then "true" else "false")]

end EventTrace
