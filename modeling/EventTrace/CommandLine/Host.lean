import EventTrace.Bytes

/-!
# Hosts

What a command needs of the system that it runs on. The commands are written for any host: one that
is a value, so that what they do can be computed and reasoned about, or the machine itself.
-/

namespace EventTrace.CommandLine

/-- What becomes of reading a file. -/
inductive Content where
  /-- There is nothing to open. -/
  | absent
  /-- What was opened cannot be read, as a directory cannot. -/
  | unreadable
  | data (bytes : Bytes)
deriving DecidableEq

/-- A system, by what can be done on it. What may fail answers with an error text if it does. -/
structure Host (m : Type → Type) where
  readFile : String → m Content
  readInput : m Content
  /-- Makes the directories that a path needs. -/
  makeParents : String → m (Option String)
  /-- Replaces or makes a file. -/
  writeFile : String → String → m (Option String)
  print : String → m Unit
  complain : String → m Unit

end EventTrace.CommandLine
