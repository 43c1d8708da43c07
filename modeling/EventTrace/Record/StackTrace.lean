import EventTrace.Record.Basic

/-!
# Going through a stack

The return addresses of a record are drawn one by one, from the innermost end or from the outermost.
Every trace of a record starts over with all of them. Bytes at the end of the stack region that do not
fill an address are set aside at once and never drawn from.
-/

namespace EventTrace

/-- The end of a stack that an address is drawn from. -/
inductive StackEnd where
  | innermost
  | outermost
deriving DecidableEq, Repr

/-- The return addresses of a record that were not drawn yet. -/
structure StackTrace where
  /-- The bytes of the addresses. -/
  entries : Bytes
  /-- The bytes behind them that do not fill an address. -/
  remainder : Bytes
  whole : Record.addressWidth ∣ entries.length

namespace StackTrace

open Record (addressWidth)

def ofRegion (region : Bytes) : StackTrace where
  entries := region.take (region.length - region.length % addressWidth)
  remainder := region.drop (region.length - region.length % addressWidth)
  whole := by
    rw [List.length_take, Nat.min_eq_left (Nat.sub_le _ _)]
    exact Nat.dvd_sub_mod _

/-- All addresses of a record; there are none where no stack was captured. -/
def ofRecord (r : Record) : StackTrace := ofRegion (r.stackRegion?.getD [])

variable (t : StackTrace)

def length : Nat := t.entries.length / addressWidth

/-- The address that the bytes of an entry start with. -/
def address? (entry : Bytes) : Option UInt64 :=
  (entry.slice? 0 addressWidth).map fun raw => UInt64.ofNat raw.toNatLE

/-- Draws the innermost address: the answer, and what there is after it. -/
def next : Option UInt64 × StackTrace :=
  if addressWidth ≤ t.entries.length then
    (address? (t.entries.take addressWidth),
      { t with
        entries := t.entries.drop addressWidth
        whole := List.length_drop ▸ Nat.dvd_sub t.whole (Nat.dvd_refl _) })
  else (none, t)

def nextBack : Option UInt64 × StackTrace :=
  if addressWidth ≤ t.entries.length then
    (address? (t.entries.drop (t.entries.length - addressWidth)),
      { t with
        entries := t.entries.take (t.entries.length - addressWidth)
        whole := by
          rw [List.length_take, Nat.min_eq_left (Nat.sub_le _ _)]
          exact Nat.dvd_sub t.whole (Nat.dvd_refl _) })
  else (none, t)

def draw : StackEnd → Option UInt64 × StackTrace
  | .innermost => t.next
  | .outermost => t.nextBack

/-- What is drawn from one end after the other: each answer with its end, and what there is after
all of them. -/
def run (t : StackTrace) : List StackEnd → List (StackEnd × Option UInt64) × StackTrace
  | [] => ([], t)
  | side :: rest =>
    let (answer, later) := t.draw side
    let (answers, last) := run later rest
    ((side, answer) :: answers, last)

/-- The addresses that were drawn from one of the ends, in the order in which they were. -/
def taken (side : StackEnd) (answers : List (StackEnd × Option UInt64)) : List UInt64 :=
  answers.filterMap fun answer => if answer.1 = side then answer.2 else none

def drain (side : StackEnd) : List UInt64 :=
  taken side (t.run (List.replicate t.length side)).1

end StackTrace

end EventTrace
