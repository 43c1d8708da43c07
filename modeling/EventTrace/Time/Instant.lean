import EventTrace.Text.Hex
import EventTrace.Time.Calendar

/-!
# Instants

Points in time with the precision of a nanosecond, counted from 1970-01-01 in UTC, within the years
that a date with any offset can name. An instant is written in the form of RFC 3339.
-/

namespace EventTrace

def Instant.leastNanos : Int := -377705023201 * 1000000000

def Instant.greatestNanos : Int := 253402207200 * 1000000000 + 999999999

/-- A point in time, in nanoseconds from 1970-01-01T00:00:00Z. -/
structure Instant where
  nanos : Int
  least_le : Instant.leastNanos ≤ nanos
  le_greatest : nanos ≤ Instant.greatestNanos
deriving DecidableEq

namespace Instant

def ofNanos? (nanos : Int) : Option Instant :=
  if h : leastNanos ≤ nanos ∧ nanos ≤ greatestNanos then some ⟨nanos, h.1, h.2⟩ else none

/-- The instant of a number of seconds and nanoseconds, which may differ in sign. -/
def ofParts? (seconds nanos : Int) : Option Instant := ofNanos? (seconds * 1000000000 + nanos)

/-- A number of nanoseconds that can be kept is that of its instant. -/
theorem ofNanos?_eq_some_iff {n : Int} {t : Instant} : ofNanos? n = some t ↔ t.nanos = n := by
  unfold ofNanos?
  split
  · constructor
    · rintro ⟨⟩; rfl
    · rintro rfl; rfl
  · rename_i h
    constructor
    · rintro ⟨⟩
    · rintro rfl; exact absurd ⟨t.least_le, t.le_greatest⟩ h

/-! ## Text -/

/-- A number in decimal, filled up with zeros to `width` digits. -/
def padded (width n : Nat) : List Char := Hex.padLeft width (Nat.toDigits 10 n)

/-- Four digits for the years of the common era, a sign and six digits for the others. -/
def yearText (year : Int) : List Char :=
  if 0 ≤ year ∧ year ≤ 9999 then padded 4 year.toNat
  else (if year < 0 then '-' else '+') :: padded 6 year.natAbs

/-- A point and the digits of a fraction of a second without trailing zeros, or nothing. -/
def fractionText (nanos : Nat) : List Char :=
  if nanos = 0 then []
  else '.' :: ((padded 9 nanos).reverse.dropWhile (· = '0')).reverse

def textChars (t : Instant) : List Char :=
  let seconds := t.nanos / 1000000000
  let date := Time.Date.ofDays (seconds / 86400)
  let ofDay := (seconds % 86400).toNat
  yearText date.year ++ '-' :: padded 2 date.month ++ '-' :: padded 2 date.day ++
    'T' :: padded 2 (ofDay / 3600) ++ ':' :: padded 2 (ofDay / 60 % 60) ++
    ':' :: padded 2 (ofDay % 60) ++ fractionText (t.nanos % 1000000000).toNat ++ ['Z']

def text (t : Instant) : String := String.ofList t.textChars

end Instant

end EventTrace
