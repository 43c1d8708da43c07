import EventTrace.Time.Instant

/-!
# FILETIMEs

Ticks of 100 nanoseconds since 1601-01-01 in UTC. Every tick count whose second an instant can have
is an instant, and going back gives the ticks again; an instant between two ticks goes down to the
earlier one, and an instant before 1601 to tick zero.
-/

namespace EventTrace.FileTime

def ticksPerSecond : Nat := 10000000

/-- The seconds from 1601-01-01 to 1970-01-01. -/
def epochSeconds : Nat := 11644473600

/-- The whole seconds of some ticks, counted from 1970. -/
def unixSeconds (ticks : Nat) : Int := Int.ofNat (ticks / ticksPerSecond) - Int.ofNat epochSeconds

def subsecondNanos (ticks : Nat) : Nat := ticks % ticksPerSecond * 100

/-- The instant of some ticks, if it is within range. -/
def toInstant? (ticks : Nat) : Option Instant :=
  Instant.ofParts? (unixSeconds ticks) (Int.ofNat (subsecondNanos ticks))

/-- The last tick at or before an instant. -/
def ofInstant (t : Instant) : Nat :=
  (t.nanos / 100 + Int.ofNat (epochSeconds * ticksPerSecond)).toNat

end EventTrace.FileTime
