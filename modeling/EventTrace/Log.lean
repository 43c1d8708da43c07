/-!
# Log lines

What an operation reports besides its result. Lines have a level; a log kept at a level holds the
lines that are at least as severe, in the order in which they arose.
-/

namespace EventTrace.Log

inductive Level where
  | error | warn | info | debug | trace
deriving DecidableEq, Repr

/-- The rank of a level; the lower, the more severe. -/
def Level.rank : Level → Nat
  | .error => 0
  | .warn => 1
  | .info => 2
  | .debug => 3
  | .trace => 4

def Level.name : Level → String
  | .error => "ERROR"
  | .warn => "WARN"
  | .info => "INFO"
  | .debug => "DEBUG"
  | .trace => "TRACE"

structure Line where
  level : Level
  text : String
deriving DecidableEq, Repr

/-- The lines that a log kept at a level holds. -/
def atLevel (level : Level) (lines : List Line) : List Line :=
  lines.filter (·.level.rank ≤ level.rank)

end EventTrace.Log
