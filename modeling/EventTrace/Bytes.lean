import EventTrace.Word

/-!
# Bytes

Byte strings as lists, so that every operation has its list laws at hand: bounded slices,
little-endian words, and the cut into pieces of one size. The two directions between words and bytes
undo each other (`toNatLE_ofNatLE`, `ofNatLE_toNatLE`).
-/

namespace EventTrace

abbrev Bytes := List UInt8

namespace Bytes

/-- The `length` bytes from `offset` on, if the data holds that many. -/
def slice? (data : Bytes) (offset length : Nat) : Option Bytes :=
  if offset + length ≤ data.length then some ((data.drop offset).take length) else none

/-- A range is cut out of some data exactly if it ends in it. -/
theorem slice?_eq_some_iff {data : Bytes} {offset length : Nat} {s : Bytes} :
    slice? data offset length = some s ↔
      offset + length ≤ data.length ∧ (data.drop offset).take length = s := by
  unfold slice?
  split
  · simp_all
  · simp_all only [reduceCtorEq, false_and]

/-! ## Little-endian words -/

/-- The lowest `width` bytes of `n`, least significant first. -/
def ofNatLE : Nat → Nat → Bytes
  | 0, _ => []
  | width + 1, n => UInt8.ofNat n :: ofNatLE width (n / 256)

/-- The number whose bytes, least significant first, are the given ones. -/
def toNatLE : Bytes → Nat
  | [] => 0
  | b :: rest => b.toNat + 256 * toNatLE rest

@[simp] theorem length_ofNatLE (width n : Nat) : (ofNatLE width n).length = width := by
  induction width generalizing n with
  | zero => rfl
  | succ width ih => simp [ofNatLE, ih]

/-- A number is read back from its bytes up to the words that they can hold. -/
theorem toNatLE_ofNatLE (width n : Nat) : toNatLE (ofNatLE width n) = n % wordCount (8 * width) := by
  induction width generalizing n with
  | zero => exact (Nat.mod_one n).symm
  | succ width ih =>
    rw [ofNatLE, toNatLE, ih, show 8 * (width + 1) = 8 + 8 * width by omega, wordCount_add,
      Nat.mod_mul]
    rfl

theorem toNatLE_lt (data : Bytes) : toNatLE data < wordCount (8 * data.length) := by
  induction data with
  | nil => exact Nat.one_pos
  | cons b rest ih =>
    have hb : b.toNat < 256 := b.toNat_lt
    have h8 : wordCount 8 = 256 := rfl
    rw [toNatLE, List.length_cons, show 8 * (rest.length + 1) = 8 + 8 * rest.length by omega,
      wordCount_add, h8]
    omega

/-- Bytes are written again by the number they spell. -/
theorem ofNatLE_toNatLE (data : Bytes) : ofNatLE data.length (toNatLE data) = data := by
  induction data with
  | nil => rfl
  | cons b rest ih =>
    have hb : b.toNat < 256 := b.toNat_lt
    rw [List.length_cons, toNatLE, ofNatLE]
    congr 1
    · exact UInt8.toNat_inj.1 (by simp only [UInt8.toNat_ofNat']; omega)
    · rw [show (b.toNat + 256 * toNatLE rest) / 256 = toNatLE rest by omega, ih]

/-! ## Pieces of one size -/

/-- The `i`-th run of `size` bytes; the last run of some data may be shorter. -/
def piece (data : Bytes) (size i : Nat) : Bytes :=
  (data.drop (size * i)).take size

/-- All whole runs of `size` bytes, in order; what is left at the end belongs to none. -/
def pieces (data : Bytes) (size : Nat) : List Bytes :=
  (List.range (data.length / size)).map (data.piece size)

@[simp] theorem length_pieces (data : Bytes) (size : Nat) :
    (data.pieces size).length = data.length / size := by
  simp [pieces]

/-- All runs of `size` bytes, in order; the last one holds what is left. -/
def chunks (data : Bytes) (size : Nat) : List Bytes :=
  (List.range ((data.length + size - 1) / size)).map (data.piece size)

@[simp] theorem length_chunks (data : Bytes) (size : Nat) :
    (data.chunks size).length = (data.length + size - 1) / size := by
  simp [chunks]

end Bytes

end EventTrace
