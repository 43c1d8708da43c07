/-!
# Arguments

The grammar of a command's arguments. Options have a long form, a short form or both, and may take a
value; all else is an operand. A value is attached to its option or is the next argument, which then
must not look like an option. Behind `--` everything is an operand.
-/

namespace EventTrace.CommandLine

/-- Whether an option takes a value, and whether it may be given more than once. -/
inductive OptionKind where
  | flag
  | count
  | single
  | many
deriving DecidableEq, Repr

namespace OptionKind

def takesValue : OptionKind → Bool
  | .flag | .count => false
  | .single | .many => true

def repeats : OptionKind → Bool
  | .flag | .single => false
  | .count | .many => true

end OptionKind

structure OptionSpec where
  name : String
  kind : OptionKind
  short : Option Char := none
  /-- Whether the name is its long form. -/
  hasLong : Bool := true
deriving DecidableEq, Repr

/-- The options given, in their order, with their values, and the operands. -/
structure Given where
  options : List (String × String) := []
  operands : List String := []
deriving DecidableEq, Repr

namespace Given

def has (g : Given) (name : String) : Bool := g.options.any (·.1 = name)

def values (g : Given) (name : String) : List String :=
  (g.options.filter (·.1 = name)).map Prod.snd

def value? (g : Given) (name : String) : Option String := (g.values name).head?

def count (g : Given) (name : String) : Nat := (g.values name).length

/-- Adds an option, unless it was given before and may not repeat. -/
def give (g : Given) (o : OptionSpec) (value : String) : Option Given :=
  if g.has o.name && !o.kind.repeats then none
  else some { g with options := g.options ++ [(o.name, value)] }

def withOperands (g : Given) (more : List String) : Given :=
  { g with operands := g.operands ++ more }

end Given

/-- What an argument looks like. -/
inductive Token where
  /-- The mark behind which there are operands only. -/
  | escape
  /-- A long option, with the value attached to it. -/
  | long (name : String) (value : Option String)
  /-- Short options behind one dash. -/
  | cluster (letters : List Char)
  | operand
deriving DecidableEq, Repr

def Token.ofLong (cs : List Char) : Token :=
  let name := cs.takeWhile (· ≠ '=')
  match cs.drop name.length with
  | _ :: value => .long (String.ofList name) (some (String.ofList value))
  | [] => .long (String.ofList name) none

def Token.ofString (arg : String) : Token :=
  match arg.toList with
  | ['-', '-'] => .escape
  | '-' :: '-' :: cs => .ofLong cs
  | '-' :: c :: cs => .cluster (c :: cs)
  | _ => .operand

/-- What is given once an argument is read, and the option that waits for its value. -/
abbrev Progress := Given × Option OptionSpec

def scanLong (specs : List OptionSpec) (g : Given) (name : String) (value : Option String) :
    Option Progress :=
  match specs.find? (fun o => o.hasLong && o.name = name) with
  | none => none
  | some o =>
    match o.kind.takesValue, value with
    | true, some v => (g.give o v).map (·, none)
    | true, none => some (g, some o)
    | false, some _ => none
    | false, none => (g.give o "").map (·, none)

def attached : List Char → String
  | '=' :: value => String.ofList value
  | value => String.ofList value

/-- Reads short options behind one dash, up to one that takes a value. -/
def scanCluster (specs : List OptionSpec) : Given → List Char → Option Progress
  | g, [] => some (g, none)
  | g, c :: rest =>
    match specs.find? (·.short = some c) with
    | none => none
    | some o =>
      if o.kind.takesValue then
        if rest.isEmpty then some (g, some o) else (g.give o (attached rest)).map (·, none)
      else
        match g.give o "" with
        | none => none
        | some next => scanCluster specs next rest

/-- Reads arguments; `waiting` is the option whose value comes next. -/
def scan (specs : List OptionSpec) : Progress → List String → Option Given
  | (g, none), [] => some g
  | (_, some _), [] => none
  | (g, waiting), arg :: rest =>
    match waiting, Token.ofString arg with
    | some o, .operand =>
      match g.give o arg with
      | none => none
      | some next => scan specs (next, none) rest
    | some _, _ => none
    | none, .operand => scan specs (g.withOperands [arg], none) rest
    | none, .escape => some (g.withOperands rest)
    | none, .long name value =>
      match scanLong specs g name value with
      | none => none
      | some next => scan specs next rest
    | none, .cluster letters =>
      match scanCluster specs g letters with
      | none => none
      | some next => scan specs next rest

/-- Reads arguments, or finds that they do not follow the grammar. -/
def Given.ofArguments (specs : List OptionSpec) (args : List String) : Option Given :=
  scan specs ({}, none) args

end EventTrace.CommandLine
