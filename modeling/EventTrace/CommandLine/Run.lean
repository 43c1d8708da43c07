import EventTrace.CommandLine.Host
import EventTrace.CommandLine.Parse

/-!
# Runs

The commands on a host. A run ends with zero, with one where the command failed, with two where the
arguments ask for nothing that there is, and with 101 where packing stopped the machine.
-/

namespace EventTrace.CommandLine

variable {m : Type → Type} [Monad m]

/-- Goes on with the outcome of a step unless it failed. -/
def andThen {α β : Type} (step : Except Failure α) (next : α → m (Except Failure β)) :
    m (Except Failure β) :=
  match step with
  | .ok a => next a
  | .error f => pure (.error f)

def loadRegistry (host : Host m) (path : String) : m (Except Failure Registry) := do
  match ← host.readFile path with
  | .absent => return .error ⟨"failed to open " ++ ticked path, none⟩
  | .unreadable => return .error (manifestFailure path "the manifest cannot be read")
  | .data bytes => return registryOf path bytes

/-- The records in the file at a path, or those given as input where the path is a dash. -/
def loadRecords (host : Host m) (path : String) : m (Except Failure (List Record)) := do
  match ← if path = "-" then host.readInput else host.readFile path with
  | .absent => return .error ⟨"failed to open " ++ ticked path, none⟩
  | .unreadable => return .error (Parse.unreadable path 1 "the file cannot be read")
  | .data bytes => return Parse.records path bytes

def ofHost (error : Option String) : Except Failure Unit :=
  match error with
  | some message => .error ⟨message, none⟩
  | none => .ok ()

/-- Nobody can be asked whether a file may be overwritten. -/
def cannotAsk : Failure :=
  ⟨"Failed to write confirmation prompt to term caused by\nIO error: not a terminal", none⟩

/-- Puts a text into the file at a path, which may be there already only if it may be overwritten. -/
def save (host : Host m) (overwrite : Bool) (path text : String) : m (Except Failure Unit) := do
  match ← host.readFile path, overwrite with
  | .unreadable, _ =>
    return .error ⟨"There is a directory at " ++ path ++ ", refusing to overwrite", none⟩
  | .data _, false => return .error cannotAsk
  | _, _ =>
    andThen (ofHost (← host.makeParents path)) fun () => do
      return ofHost (← host.writeFile path text)

/-- Builds a record and writes its line, unless packing stops the machine. -/
def runBuild (host : Host m) (o : BuildOptions) : m (Option (Except Failure Unit)) := do
  match ← loadRegistry host o.manifest with
  | .error f => return some (.error f)
  | .ok registry =>
    match Build.packed o registry with
    | none => return none
    | some built =>
      some <$> andThen built fun p =>
        match o.output with
        | some path => save host o.overwrite path (Build.lineOf p.record)
        | none => .ok <$> host.print (Build.lineOf p.record)

def runParse (host : Host m) (o : ParseOptions) : m (Except Failure Unit) := do
  andThen (← loadRegistry host o.manifest) fun registry => do
    andThen (← loadRecords host o.records) fun all =>
      andThen (Parse.output o registry all) fun text => .ok <$> host.print text

def Command.run (host : Host m) : Command → m (Option (Except Failure Unit))
  | .build o => runBuild host o
  | .parse o => some <$> runParse host o

def versionText : String := "etwrec_dump 0.1.0\n"

def usageText : String :=
  "usage: etwrec_dump [-v]... build -l MANIFEST --event-id ID [OPTIONS]\n" ++
    "       etwrec_dump [-v]... parse RECORDS -l MANIFEST [OPTIONS]\n"

def highestVerbosity : Nat := 3

def verbosityNotice : String := "using more than  -vvv does not affect verbosity level\n"

def overflowText : String := "capacity overflow\n"

/-- Runs what the arguments ask for and answers with the code to end with. -/
def run (host : Host m) (args : List String) : m UInt32 := do
  match Invocation.ofArguments 0 args with
  | none =>
    host.complain usageText
    return 2
  | some .version =>
    host.print versionText
    return 0
  | some (.command verbosity c) =>
    if highestVerbosity < verbosity then host.complain verbosityNotice
    match ← c.run host with
    | none =>
      host.complain overflowText
      return 101
    | some (.ok ()) => return 0
    | some (.error f) =>
      host.complain (f.text ++ "\n")
      return 1

end EventTrace.CommandLine
