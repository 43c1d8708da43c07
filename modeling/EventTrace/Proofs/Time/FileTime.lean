import EventTrace.Time.Machine

/-!
# FILETIMEs are exact

A FILETIME is an instant as long as its second is one that instants have, and going back gives the same
FILETIME. An instant goes down to the last tick at or before it, also before 1970; one before 1601 goes
to the first tick. A later instant never has an earlier FILETIME (`FileTime.conversion_exact`). On the
way every number fits into its word (`Machine.toInstant?_eq`, `Machine.ofInstant_eq`).
-/

namespace EventTrace

namespace FileTime

/-- The instant of tick zero, in nanoseconds. -/
def epochNanos : Int := -11644473600 * 1000000000

def nanos (ticks : Nat) : Int := epochNanos + Int.ofNat ticks * 100

variable {n : Nat} {t u : Instant}

/-! ## From ticks to instants -/

theorem nanos_eq (n : Nat) : unixSeconds n * 1000000000 + Int.ofNat (subsecondNanos n) = nanos n := by
  simp only [unixSeconds, subsecondNanos, nanos, epochNanos, epochSeconds, ticksPerSecond,
    Int.ofNat_eq_natCast]
  omega

theorem toInstant?_eq_some_iff : toInstant? n = some t ↔ t.nanos = nanos n := by
  rw [toInstant?, Instant.ofParts?, Instant.ofNanos?_eq_some_iff, nanos_eq]

/-- Ticks are an instant exactly if their second is not behind the last one. -/
theorem isSome_toInstant?_iff : (toInstant? n).isSome ↔ unixSeconds n ≤ 253402207200 := by
  have hrange : (toInstant? n).isSome ↔ Instant.leastNanos ≤ nanos n ∧ nanos n ≤ Instant.greatestNanos := by
    rw [Option.isSome_iff_exists]
    constructor
    · rintro ⟨t, ht⟩
      rw [← toInstant?_eq_some_iff.1 ht]
      exact ⟨t.least_le, t.le_greatest⟩
    · rintro ⟨hleast, hgreatest⟩
      exact ⟨⟨nanos n, hleast, hgreatest⟩, toInstant?_eq_some_iff.2 rfl⟩
  rw [hrange]
  simp only [nanos, epochNanos, Instant.leastNanos, Instant.greatestNanos, unixSeconds, epochSeconds,
    ticksPerSecond, Int.ofNat_eq_natCast]
  omega

/-! ## From instants to ticks -/

theorem ofInstant_eq (t : Instant) : ofInstant t = ((t.nanos - epochNanos) / 100).toNat := by
  simp only [ofInstant, epochNanos, epochSeconds, ticksPerSecond, Int.ofNat_eq_natCast]
  omega

/-- The ticks of an instant are the last ones at or before it. -/
theorem le_ofInstant_iff (h : epochNanos ≤ t.nanos) : n ≤ ofInstant t ↔ nanos n ≤ t.nanos := by
  rw [ofInstant_eq, nanos, Int.ofNat_eq_natCast]
  omega

theorem ofInstant_of_lt (h : t.nanos < epochNanos) : ofInstant t = 0 := by
  rw [ofInstant_eq]
  omega

theorem ofInstant_mono (h : t.nanos ≤ u.nanos) : ofInstant t ≤ ofInstant u := by
  rw [ofInstant_eq, ofInstant_eq]
  omega

theorem ofInstant_of_toInstant? (h : toInstant? n = some t) : ofInstant t = n := by
  rw [ofInstant_eq, toInstant?_eq_some_iff.1 h, nanos, Int.ofNat_eq_natCast]
  omega

/-- An instant from 1601 on loses less than a tick. -/
theorem exists_toInstant? (h : epochNanos ≤ t.nanos) :
    ∃ t', toInstant? (ofInstant t) = some t' ∧ 0 ≤ t.nanos - t'.nanos ∧
      t.nanos - t'.nanos < 100 := by
  have hle : nanos (ofInstant t) ≤ t.nanos := (le_ofInstant_iff h).1 (Nat.le_refl _)
  have hlt : t.nanos < nanos (ofInstant t) + 100 := by
    rw [nanos, ofInstant_eq, Int.ofNat_eq_natCast]
    omega
  have hleast : Instant.leastNanos ≤ nanos (ofInstant t) := by
    simp only [Instant.leastNanos, nanos, epochNanos, Int.ofNat_eq_natCast]
    omega
  refine ⟨⟨nanos (ofInstant t), hleast, Int.le_trans hle t.le_greatest⟩,
    toInstant?_eq_some_iff.2 rfl, ?_, ?_⟩
  · exact Int.sub_nonneg.2 hle
  · show t.nanos - nanos (ofInstant t) < 100
    omega

end FileTime

namespace Machine

open FileTime (ticksPerSecond epochSeconds unixSeconds subsecondNanos)

/-! ## Words -/

/-- A number below half of the numbers of a word is itself as a signed one. -/
theorem wrapped_of_lt {bits n : Nat} (h : 2 * n < wordCount bits) : wrapped bits n = Int.ofNat n := by
  rw [wrapped, Int.ofNat_eq_natCast]
  exact Int.bmod_eq_of_le (by omega) (by omega)

theorem signed_of_mem {bits : Nat} {n : Int} (hleast : -Int.ofNat (wordCount (bits - 1)) ≤ n)
    (hgreatest : n < Int.ofNat (wordCount (bits - 1))) : signed bits n = some n :=
  if_pos ⟨hleast, hgreatest⟩

theorem narrow_of_lt {n : Nat} (h : n < wordCount 64) :
    narrow (Int.ofNat n) = some (UInt64.ofNat n) :=
  if_pos ⟨Int.natCast_nonneg n, Int.ofNat_lt.2 h⟩

/-! ## Ticks to instants -/

/-- No part of a FILETIME is too large for its word. -/
theorem parts_eq (w : UInt64) :
    parts w = some (unixSeconds w.toNat, Int.ofNat (subsecondNanos w.toNat)) := by
  have hw : w.toNat < 18446744073709551616 := w.toNat_lt
  have h32 : wordCount 32 = 4294967296 := rfl
  have h63 : wordCount (64 - 1) = 9223372036854775808 := rfl
  have h64 : wordCount 64 = 18446744073709551616 := rfl
  have hwhole : wrapped 64 (w.toNat / ticksPerSecond) = Int.ofNat (w.toNat / ticksPerSecond) :=
    wrapped_of_lt (by rw [h64, ticksPerSecond]; omega)
  have hseconds : signed 64 (unixSeconds w.toNat) = some (unixSeconds w.toNat) := by
    refine signed_of_mem ?_ ?_ <;>
      rw [h63, unixSeconds, epochSeconds, ticksPerSecond] <;> simp only [Int.ofNat_eq_natCast] <;> omega
  have hnanos : unsigned 64 (subsecondNanos w.toNat) = some (subsecondNanos w.toNat) :=
    if_pos (by rw [h64, subsecondNanos, ticksPerSecond]; omega)
  have hrest : wrapped 32 (subsecondNanos w.toNat) = Int.ofNat (subsecondNanos w.toNat) :=
    wrapped_of_lt (by rw [h32, subsecondNanos, ticksPerSecond]; omega)
  unfold unixSeconds at hseconds
  unfold subsecondNanos at hnanos hrest
  simp only [parts, hwhole, hseconds, hnanos, Option.bind_eq_bind, Option.bind_some, hrest]
  rfl

theorem toInstant?_eq (w : UInt64) : toInstant? w = some (FileTime.toInstant? w.toNat) := by
  rw [toInstant?, parts_eq]
  rfl

/-! ## Instants to ticks -/

/-- Counting the ticks up to an instant stops nothing, and rounds down. -/
theorem ticksTo_eq (t : Instant) : ticksTo t = some ((t.nanos - FileTime.epochNanos) / 100) := by
  have hleast : -377705023201 * 1000000000 ≤ t.nanos := t.least_le
  have hgreatest : t.nanos ≤ 253402207200 * 1000000000 + 999999999 := t.le_greatest
  have h127 : wordCount (128 - 1) = 170141183460469231731687303715884105728 := rfl
  have hshift : t.nanos / 100 + Int.ofNat epochSeconds * Int.ofNat ticksPerSecond =
      (t.nanos - FileTime.epochNanos) / 100 := by
    simp only [FileTime.epochNanos, epochSeconds, ticksPerSecond, Int.ofNat_eq_natCast]
    omega
  have hticks : signed 128 (t.nanos / 100) = some (t.nanos / 100) :=
    signed_of_mem (by rw [h127, Int.ofNat_eq_natCast]; omega) (by rw [h127, Int.ofNat_eq_natCast]; omega)
  have hepoch : signed 128 (Int.ofNat epochSeconds * Int.ofNat ticksPerSecond) =
      some (Int.ofNat epochSeconds * Int.ofNat ticksPerSecond) := by decide
  have hsum : signed 128 ((t.nanos - FileTime.epochNanos) / 100) =
      some ((t.nanos - FileTime.epochNanos) / 100) := by
    refine signed_of_mem ?_ ?_ <;> rw [h127, FileTime.epochNanos, Int.ofNat_eq_natCast] <;> omega
  simp only [ticksTo, hticks, hepoch, Option.bind_eq_bind, Option.bind_some, hshift, hsum]

/-- No instant is behind the last FILETIME. -/
theorem ofInstant_lt (t : Instant) : FileTime.ofInstant t < wordCount 64 := by
  have hgreatest : t.nanos ≤ 253402207200 * 1000000000 + 999999999 := t.le_greatest
  have h64 : wordCount 64 = 18446744073709551616 := rfl
  rw [FileTime.ofInstant_eq, FileTime.epochNanos, h64]
  omega

/-- The ticks to an instant have a word, which is the FILETIME of the instant. -/
theorem narrow_ticksTo (t : Instant) : ∃ ticks, ticksTo t = some ticks ∧
    narrow (max ticks 0) = some (UInt64.ofNat (FileTime.ofInstant t)) := by
  refine ⟨_, ticksTo_eq t, ?_⟩
  have hmax : max ((t.nanos - FileTime.epochNanos) / 100) 0 = Int.ofNat (FileTime.ofInstant t) := by
    rw [FileTime.ofInstant_eq, Int.ofNat_eq_natCast]
    omega
  rw [hmax, narrow_of_lt (ofInstant_lt t)]

theorem ofInstant_eq (t : Instant) : ofInstant t = some (UInt64.ofNat (FileTime.ofInstant t)) := by
  obtain ⟨ticks, hticks, hnarrow⟩ := narrow_ticksTo t
  rw [ofInstant, hticks, Option.bind_eq_bind, Option.bind_some, hnarrow]
  rfl

end Machine

/-! ## Conversions -/

namespace FileTime

/-- A FILETIME is an instant exactly if its second is not behind the last one that instants have, and
then the instant has this FILETIME; no arithmetic on words gets in the way. The FILETIME of an instant
from 1601 on is an instant at most a tick earlier, that of one before 1601 is zero, and neither is ever
cut off at the last word. A later instant has no earlier FILETIME. -/
theorem conversion_exact :
    (∀ w : UInt64, Machine.toInstant? w = some (toInstant? w.toNat) ∧
      ((toInstant? w.toNat).isSome ↔
        Int.ofNat (w.toNat / 10000000) - 11644473600 ≤ 253402207200) ∧
      ∀ t, toInstant? w.toNat = some t →
        t.nanos = (Int.ofNat (w.toNat / 10000000) - 11644473600) * 1000000000 +
          Int.ofNat (w.toNat % 10000000 * 100) ∧
        Machine.ofInstant t = some w) ∧
    (∀ t : Instant, ∃ w : UInt64, Machine.ofInstant t = some w ∧ w.toNat = ofInstant t ∧
      (∃ ticks, Machine.ticksTo t = some ticks ∧ Machine.narrow (max ticks 0) = some w) ∧
      (t.nanos < epochNanos → w = 0) ∧
      (epochNanos ≤ t.nanos → ∃ t', toInstant? w.toNat = some t' ∧ 0 ≤ t.nanos - t'.nanos ∧
        t.nanos - t'.nanos < 100)) ∧
    ∀ t u : Instant, t.nanos ≤ u.nanos → ofInstant t ≤ ofInstant u := by
  refine ⟨fun w => ⟨Machine.toInstant?_eq w, isSome_toInstant?_iff, fun t ht => ⟨?_, ?_⟩⟩,
    fun t => ?_, fun t u => ofInstant_mono⟩
  · exact (toInstant?_eq_some_iff.1 ht).trans (nanos_eq w.toNat).symm
  · rw [Machine.ofInstant_eq, ofInstant_of_toInstant? ht, UInt64.ofNat_toNat]
  · have hword : (UInt64.ofNat (ofInstant t)).toNat = ofInstant t :=
      UInt64.toNat_ofNat_of_lt' (Machine.ofInstant_lt t)
    refine ⟨_, Machine.ofInstant_eq t, hword, Machine.narrow_ticksTo t, fun hbefore => ?_, ?_⟩
    · rw [ofInstant_of_lt hbefore]
      rfl
    · rw [hword]
      exact exists_toInstant?

/-- An instant between two ticks, a little before 1970. -/
def beforeUnix : Instant := ⟨-150, by decide, by decide⟩

/-- The first instant, which is before 1601. -/
def first : Instant := ⟨Instant.leastNanos, Int.le_refl _, by decide⟩

/-- An instant before the Unix epoch with a fraction of a tick, and one before all ticks. -/
theorem conversion_exact_fraction :
    (epochNanos ≤ beforeUnix.nanos ∧ Machine.ofInstant beforeUnix = some 116444735999999998 ∧
      ∃ t, toInstant? 116444735999999998 = some t ∧ 0 ≤ beforeUnix.nanos - t.nanos ∧
        beforeUnix.nanos - t.nanos < 100) ∧
    (first.nanos < epochNanos ∧ Machine.ofInstant first = some 0) ∧
    first.nanos ≤ beforeUnix.nanos ∧ ofInstant first ≤ ofInstant beforeUnix ∧
    ∃ t, toInstant? (131966125511234567 : UInt64).toNat = some t ∧
      Machine.ofInstant t = some 131966125511234567 := by
  obtain ⟨hinstants, hticks, hmono⟩ := conversion_exact
  have hfirst : first.nanos ≤ beforeUnix.nanos := by decide
  have hfrom : epochNanos ≤ beforeUnix.nanos := by decide
  have hbefore : first.nanos < epochNanos := by decide
  refine ⟨⟨hfrom, by decide, ?_⟩, ⟨hbefore, ?_⟩, hfirst, hmono _ _ hfirst, ?_⟩
  · obtain ⟨w, -, hw, -, -, hexact⟩ := hticks beforeUnix
    have hvalue : w.toNat = 116444735999999998 := hw.trans (by decide)
    rw [← hvalue]
    exact hexact hfrom
  · obtain ⟨w, hw, -, -, hzero, -⟩ := hticks first
    rw [hw, hzero hbefore]
  · obtain ⟨-, hsome, hback⟩ := hinstants 131966125511234567
    obtain ⟨t, ht⟩ := Option.isSome_iff_exists.1 (hsome.2 (by decide))
    exact ⟨t, ht, (hback t ht).2⟩

end FileTime

end EventTrace
