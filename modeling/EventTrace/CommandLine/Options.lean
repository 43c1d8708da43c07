import EventTrace.CommandLine.Arguments
import EventTrace.Decimal.Literal
import EventTrace.Layout.Error
import EventTrace.Guid
import EventTrace.Reading.Settings

/-!
# Options of the commands

What `build` and `parse` are told by their arguments. Arguments that name no command, lack something
required or hold a value that cannot be read are a usage error as a whole.
-/

namespace EventTrace.CommandLine

structure BuildOptions where
  manifest : String
  key : LayoutKey
  provider : Guid := .nil
  /-- Assignments of literals to fields. -/
  fields : List String := []
  /-- Return addresses in hexadecimal. -/
  stack : List String := []
  incomplete : Bool := false
  output : Option String := none
  overwrite : Bool := false
deriving DecidableEq

structure ParseOptions where
  records : String
  manifest : String
  eventId : Option UInt16 := none
  /-- Assignments of literals that fields have to agree with. -/
  fieldEq : List String := []
  /-- Assignments of texts that fields have to contain. -/
  contains : List String := []
  hexdump : Bool := false
  settings : Settings := {}
deriving DecidableEq

inductive Command where
  | build (o : BuildOptions)
  | parse (o : ParseOptions)
deriving DecidableEq

inductive Invocation where
  | version
  | command (verbosity : Nat) (c : Command)
deriving DecidableEq

/-! ## Values -/

def readBelow (bound : Nat) (s : String) : Option Nat :=
  match Decimal.readWhole 10 s.toList with
  | .ok (.ofNat n) => if n < bound then some n else none
  | _ => none

/-- Reads a number without a minus sign in some base, below a bound. -/
def readUnsigned (base bound : Nat) (cs : List Char) : Option Nat :=
  match cs with
  | '-' :: _ => none
  | cs =>
    match Decimal.readWhole base cs with
    | .ok (.ofNat n) => if n < bound then some n else none
    | _ => none

def readOption {α : Type} (g : Given) (name : String) (read : String → Option α) :
    Option (Option α) :=
  match g.value? name with
  | none => some none
  | some s => (read s).map some

/-- Reads a codec that stores ASCII text as itself. -/
def readCodec (s : String) : Option Codec := (Codec.ofName? s).filter Codec.isAsciiCompatible

/-! ## Commands -/

def verbose : OptionSpec := { name := "verbose", kind := .count, short := some 'v', hasLong := false }

def buildSpecs : List OptionSpec :=
  [verbose,
    { name := "layouts", kind := .single, short := some 'l' },
    { name := "event-id", kind := .single },
    { name := "version", kind := .single },
    { name := "provider", kind := .single },
    { name := "field", kind := .many, short := some 'f' },
    { name := "stack", kind := .many },
    { name := "incomplete", kind := .flag },
    { name := "output", kind := .single, short := some 'o' },
    { name := "no-confirm-overwrite", kind := .flag }]

def parseSpecs : List OptionSpec :=
  [verbose,
    { name := "layouts", kind := .single, short := some 'l' },
    { name := "event-id", kind := .single },
    { name := "field-eq", kind := .many },
    { name := "contains", kind := .many },
    { name := "hexdump", kind := .flag },
    { name := "threads", kind := .single, short := some 't' },
    { name := "strict-terminators", kind := .flag },
    { name := "ansi-codec", kind := .single }]

def BuildOptions.ofGiven (g : Given) : Option BuildOptions := do
  let manifest ← g.value? "layouts"
  let eventId ← (g.value? "event-id").bind (readBelow (wordCount 16))
  let version ← readOption g "version" (readBelow (wordCount 8))
  let provider ← readOption g "provider" fun s => (Guid.parse s).toOption
  guard g.operands.isEmpty
  return {
    manifest
    key := ⟨UInt16.ofNat eventId, UInt8.ofNat (version.getD 0)⟩
    provider := provider.getD .nil
    fields := g.values "field"
    stack := g.values "stack"
    incomplete := g.has "incomplete"
    output := g.value? "output"
    overwrite := g.has "no-confirm-overwrite" }

def ParseOptions.ofGiven (g : Given) : Option ParseOptions := do
  let manifest ← g.value? "layouts"
  let eventId ← readOption g "event-id" (readBelow (wordCount 16))
  let threads ← readOption g "threads" fun s => readUnsigned 10 (wordCount 64) s.toList
  let codec ← readOption g "ansi-codec" readCodec
  match g.operands with
  | [records] =>
    return {
      records
      manifest
      eventId := eventId.map UInt16.ofNat
      fieldEq := g.values "field-eq"
      contains := g.values "contains"
      hexdump := g.has "hexdump"
      settings :=
        { threads := threads.getD 0
          codec := codec.getD .windows1252
          strict := g.has "strict-terminators" } }
  | _ => none

def Command.ofArguments (name : String) (args : List String) : Option (Nat × Command) :=
  match name with
  | "build" => do
    let g ← Given.ofArguments buildSpecs args
    return (g.count verbose.name, .build (← BuildOptions.ofGiven g))
  | "parse" => do
    let g ← Given.ofArguments parseSpecs args
    return (g.count verbose.name, .parse (← ParseOptions.ofGiven g))
  | _ => none

/-! ## Invocations -/

/-- What short options before a command ask for: the version, or to count one letter. -/
inductive Prelude where
  | version
  | verbose (times : Nat)
deriving DecidableEq, Repr

def Prelude.ofLetters : List Char → Option Prelude
  | [] => some (.verbose 0)
  | 'V' :: _ => some .version
  | 'v' :: rest =>
    match ofLetters rest with
    | some (.verbose n) => some (.verbose (n + 1))
    | other => other
  | _ => none

def Prelude.ofToken : Token → Option Prelude
  | .long "version" none => some .version
  | .cluster letters => ofLetters letters
  | _ => none

/-- Reads all arguments. The verbosity given to the command replaces the one before it. -/
def Invocation.ofArguments (verbosity : Nat) : List String → Option Invocation
  | [] => none
  | arg :: rest =>
    match Token.ofString arg with
    | .operand =>
      (Command.ofArguments arg rest).map fun (count, c) =>
        .command (if count = 0 then verbosity else count) c
    | token =>
      match Prelude.ofToken token with
      | none => none
      | some .version => some .version
      | some (.verbose n) => ofArguments (verbosity + n) rest

end EventTrace.CommandLine
