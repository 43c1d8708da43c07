import EventTrace.Time.FileTime
import EventTrace.Word

/-!
# FILETIMEs in words

How a machine turns FILETIMEs into instants and back. A result that its word cannot hold stops the
machine (`none`). A number that is taken as a signed word does not: if it is too large it goes around.
An instant behind the last FILETIME is taken as that one.

That nothing stops it, that nothing goes around and that no instant is behind the last FILETIME is the
subject of `EventTrace.Proofs.Time.FileTime`.
-/

namespace EventTrace.Machine

def unsigned (bits n : Nat) : Option Nat := if n < wordCount bits then some n else none

def signed (bits : Nat) (n : Int) : Option Int :=
  let bound := Int.ofNat (wordCount (bits - 1))
  if -bound ≤ n ∧ n < bound then some n else none

/-- A number taken as a signed word of some bits, the lowest of its own. -/
def wrapped (bits n : Nat) : Int := Int.bmod (Int.ofNat n) (wordCount bits)

/-- The word of a number, if it has one. -/
def narrow (n : Int) : Option UInt64 :=
  if 0 ≤ n ∧ n < Int.ofNat (wordCount 64) then some (UInt64.ofNat n.toNat) else none

/-! ## Conversions -/

/-- The seconds from 1970 and the nanoseconds beyond them of a FILETIME. -/
def parts (ticks : UInt64) : Option (Int × Int) := do
  let whole := wrapped 64 (ticks.toNat / FileTime.ticksPerSecond)
  let seconds ← signed 64 (whole - Int.ofNat FileTime.epochSeconds)
  let nanos ← unsigned 64 (ticks.toNat % FileTime.ticksPerSecond * 100)
  return (seconds, wrapped 32 nanos)

def toInstant? (ticks : UInt64) : Option (Option Instant) := do
  let (seconds, nanos) ← parts ticks
  return Instant.ofParts? seconds nanos

/-- The ticks from 1601 to an instant, which are negative for one before. -/
def ticksTo (t : Instant) : Option Int := do
  let ticks ← signed 128 (t.nanos / 100)
  let epoch ← signed 128 (Int.ofNat FileTime.epochSeconds * Int.ofNat FileTime.ticksPerSecond)
  signed 128 (ticks + epoch)

/-- The FILETIME of an instant; the first one for an instant before 1601. -/
def ofInstant (t : Instant) : Option UInt64 := do
  let ticks ← ticksTo t
  return (narrow (max ticks 0)).getD (UInt64.ofNat (wordCount 64 - 1))

end EventTrace.Machine
