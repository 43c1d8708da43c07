import EventTrace.Hexdump.Machine
import EventTrace.Proofs.Hexdump.Row
import EventTrace.Proofs.Reading.Machine

/-!
# Dumping in words never stops

Where a word holds the address behind the last byte, a machine writes the dump of any bytes that it can
hold at all (`Machine.hexdump_eq`). A line does not depend on the bytes in front of it, so what is written
from a place on is the dump of the bytes from there (`Machine.dumpFrom_eq`).
-/

namespace EventTrace

/-! ## Lines one by one -/

namespace Hexdump

variable {f : HexdumpFormat} {data : Bytes}

theorem lines_nil (f : HexdumpFormat) (offset : Nat) : lines f offset [] = [] := by
  rw [lines, Bytes.chunks_nil (by decide)]
  rfl

theorem lines_eq_cons (offset : Nat) (hdata : data ≠ []) :
    lines f offset data = line f offset (data.take lineBytes) ::
      lines f (offset + lineBytes) (data.drop lineBytes) := by
  rw [lines, Bytes.chunks_eq_cons (by decide) hdata, List.mapIdx_cons]
  simp only [Nat.mul_zero, Nat.add_zero, Nat.mul_add, Nat.mul_one, lines, Nat.add_assoc,
    Nat.add_comm lineBytes]

end Hexdump

namespace Machine

variable {f : HexdumpFormat} {data : Bytes}

/-! ## Parts of lines -/

theorem mul_eq_some {a b : Nat} (h : a * b < lengthBound) : mul a b = some (a * b) := if_pos h

/-- The characters that are neither of control nor outside of ASCII are the printable ones. -/
theorem printed_eq_shown (b : UInt8) : printed b = Hexdump.shown b := by
  have h : ∀ n : Fin 256, printed (UInt8.ofNat n) = Hexdump.shown (UInt8.ofNat n) := by
    decide +kernel
  have hb := h ⟨b.toNat, b.toNat_lt⟩
  rwa [UInt8.ofNat_toNat] at hb

/-- The words of a line are counted with one that is cut short at its end. -/
theorem words_eq (f : HexdumpFormat) (length : Nat) :
    words length f.wordBytes = (length + f.wordBytes - 1) / f.wordBytes := by
  rw [words]
  by_cases hrest : 0 < length % f.wordBytes
  · rw [if_pos hrest]
    cases f <;> simp only [HexdumpFormat.wordBytes] at hrest ⊢ <;> omega
  · rw [if_neg hrest]
    cases f <;> simp only [HexdumpFormat.wordBytes] at hrest ⊢ <;> omega

/-- A byte alone is a word. -/
theorem toNatLE_piece_one {i : Nat} (hi : i < data.length) :
    (data.piece 1 i).toNatLE = data[i].toNat := by
  rw [Bytes.piece, Nat.one_mul, List.drop_eq_getElem_cons hi]
  rfl

/-- Of a word of two bytes, the second may be missing. -/
theorem toNatLE_piece_two {i : Nat} (hi : 2 * i < data.length) :
    (data.piece 2 i).toNatLE = Bytes.toNatLE [data[2 * i], data[2 * i + 1]?.getD 0] := by
  rw [Bytes.piece, List.drop_eq_getElem_cons hi, List.take_succ_cons]
  by_cases hnext : 2 * i + 1 < data.length
  · rw [List.drop_eq_getElem_cons hnext, List.getElem?_eq_getElem hnext]
    rfl
  · rw [List.drop_of_length_le (Nat.not_lt.1 hnext), List.getElem?_eq_none (Nat.not_lt.1 hnext)]
    rfl

/-- In place, the number of a word is that of its piece. -/
theorem number_eq (hline : data.length ≤ 16) {i : Nat}
    (hi : i < (data.length + f.wordBytes - 1) / f.wordBytes) :
    number f data i = some (data.piece f.wordBytes i).toNatLE := by
  have hfirst : f.wordBytes * i < data.length := by
    cases f <;> simp only [HexdumpFormat.wordBytes] at hi ⊢ <;> omega
  cases f with
  | octal | canonical =>
    rw [HexdumpFormat.wordBytes, Nat.one_mul] at hfirst
    simp only [number, HexdumpFormat.wordBytes, toNatLE_piece_one hfirst,
      List.getElem?_eq_getElem hfirst, Option.map_some]
  | words =>
    rw [HexdumpFormat.wordBytes] at hfirst
    have hbound : 16 < lengthBound := by decide
    simp only [number, HexdumpFormat.wordBytes, toNatLE_piece_two hfirst, Option.bind_eq_bind,
      mul_eq_some (show 2 * i < lengthBound by omega),
      add_eq_some (show 2 * i + 1 < lengthBound by omega),
      Option.bind_some, List.getElem?_eq_getElem hfirst]
    rfl

/-- A line that is cut short is filled to the width of a whole one. -/
theorem alignment_eq (hline : data.length ≤ 16) :
    alignment f data = some (Hexdump.filling f data) := by
  rw [alignment, Hexdump.filling]
  split
  next hshort =>
    have hproduct : f.columnWidth * ((16 - data.length) / f.wordBytes) < lengthBound := by
      have hbound : 80 < lengthBound := by decide
      have hwidth : f.columnWidth ≤ 5 := by cases f <;> decide
      have hcount : (16 - data.length) / f.wordBytes ≤ 16 :=
        Nat.le_trans (Nat.div_le_self _ _) (Nat.sub_le _ _)
      exact Nat.lt_of_le_of_lt (Nat.mul_le_mul hwidth hcount) hbound
    rw [sub_eq_some hline, Option.bind_eq_bind, Option.bind_some, mul_eq_some hproduct]
    rfl
  next hfull =>
    have hlength : Hexdump.lineBytes - data.length = 0 := by
      rw [Hexdump.lineBytes]
      omega
    rw [hlength, Nat.zero_div, Nat.mul_zero]
    rfl

/-- A line is written in place as it is shown. -/
theorem dumpLine_eq (f : HexdumpFormat) (address : Nat) (hline : data.length ≤ 16) :
    dumpLine f address data = some (Hexdump.line f address data ++ ['\n']) := by
  have hnumbers : (List.range (words data.length f.wordBytes)).mapM (number f data) =
      some ((List.range (words data.length f.wordBytes)).map fun i =>
        (data.piece f.wordBytes i).toNatLE) := by
    refine Hexdump.mapM_eq_some (List.forall₂_map_left_iff.2 (List.forall₂_same.2 fun i hi => ?_))
    exact number_eq hline (words_eq f data.length ▸ List.mem_range.1 hi)
  rw [dumpLine, hnumbers, alignment_eq hline, funext printed_eq_shown, words_eq]
  simp only [Option.bind_eq_bind, Option.bind_some, Hexdump.line, Hexdump.columns, Bytes.chunks,
    List.flatMap_map]
  rfl

/-! ## Dumps -/

/-- From a place on, a machine writes the dump of the bytes from there on. -/
theorem dumpFrom_eq {data : Bytes} {offset : Nat} (hoffset : offset + data.length < lengthBound)
    (hdata : data.length ≤ capacity) (place : Nat) :
    dumpFrom f offset data place =
      some ((Hexdump.lines f (offset + place) (data.drop place)).flatMap (· ++ ['\n'])) := by
  fun_induction dumpFrom f offset data place with
  | case1 place hplace ih =>
    have hcapacity : capacity + 16 < lengthBound := by decide
    -- a line that is cut at the end of the data has all that is left
    have hline : (data.drop place).take (min (place + 16) data.length - place) =
        (data.drop place).take Hexdump.lineBytes := by
      rcases Nat.le_total (place + 16) data.length with hle | hle
      · rw [Nat.min_eq_left hle, Nat.add_sub_cancel_left, Hexdump.lineBytes]
      · rw [Nat.min_eq_right hle, List.take_of_length_le (by rw [List.length_drop]),
          List.take_of_length_le (by rw [List.length_drop, Hexdump.lineBytes]; omega)]
    have hrest : data.drop place ≠ [] := by
      rw [Ne, List.drop_eq_nil_iff]
      omega
    have hfull : add place 16 = some (place + 16) := add_eq_some (by omega)
    have hslice : slice data place (min (place + 16) data.length) = _ :=
      slice_eq_some (by omega) (Nat.min_le_right _ _)
    have haddress : add place offset = some (place + offset) := add_eq_some (by omega)
    have hwritten := dumpLine_eq f (place + offset) (List.length_take_le 16 (data.drop place))
    simp only [Option.bind_eq_bind, hfull, hslice, haddress, Option.bind_some, hline, ih]
    rw [Hexdump.lineBytes, hwritten, Option.bind_some, Hexdump.lines_eq_cons _ hrest,
      List.flatMap_cons, List.drop_drop, Nat.add_comm place offset, Nat.add_assoc]
    rfl
  | case2 place hplace =>
    rw [List.drop_of_length_le (Nat.not_lt.1 hplace), Hexdump.lines_nil]
    rfl

theorem hexdump_eq {data : Bytes} {offset : Nat} (hoffset : offset + data.length < lengthBound)
    (hdata : data.length ≤ capacity) (f : HexdumpFormat) :
    hexdump data offset f = some (EventTrace.hexdump data offset f) := by
  rw [hexdump, dumpFrom_eq hoffset hdata]
  rfl

end Machine

end EventTrace
