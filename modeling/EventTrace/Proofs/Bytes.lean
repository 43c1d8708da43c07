import EventTrace.Bytes

/-!
# Bytes in runs of one size

Put behind each other, the whole runs of some bytes are the bytes up to what is left behind the last of
them (`Bytes.flatten_pieces`). With the run of what is left they are cut off the front one by one
(`Bytes.chunks_eq_cons`), and filled up with zeros they are the whole runs of the bytes with zeros
behind (`Bytes.map_chunks_zeros`).
-/

namespace EventTrace.Bytes

variable {a b data : Bytes} {size i : Nat}

/-! ## Whole runs -/

/-- A piece that ends in the front does not see the back. -/
theorem piece_append_left (h : size * (i + 1) ≤ a.length) : (a ++ b).piece size i = a.piece size i := by
  rw [Nat.mul_succ] at h
  have hstart : size * i ≤ a.length := by omega
  have hlength : size ≤ (a.drop (size * i)).length := by
    rw [List.length_drop]
    omega
  rw [piece, piece, List.drop_append_of_le_length hstart, List.take_append_of_le_length hlength]

theorem piece_append_right {k : Nat} (h : a.length = size * k) :
    (a ++ b).piece size (k + i) = b.piece size i := by
  rw [piece, piece, Nat.mul_add, ← h, List.drop_length_add_append]

/-- Whole pieces in front stay pieces. -/
theorem pieces_append (hpos : 0 < size) (hdvd : size ∣ a.length) :
    (a ++ b).pieces size = a.pieces size ++ b.pieces size := by
  obtain ⟨k, hk⟩ := hdvd
  have hfront : a.length / size = k := by rw [hk, Nat.mul_div_cancel_left k hpos]
  have hcount : (a ++ b).length / size = k + b.length / size := by
    rw [List.length_append, hk, Nat.mul_add_div hpos]
  rw [pieces, pieces, pieces, hfront, hcount, List.range_add, List.map_append, List.map_map]
  congr 1
  · refine List.map_congr_left fun i hi => piece_append_left ?_
    rw [hk]
    exact Nat.mul_le_mul_left size (List.mem_range.1 hi)
  · exact List.map_congr_left fun i _ => piece_append_right hk

/-- Data of the size of a piece is one. -/
theorem pieces_of_length (hpos : 0 < size) (h : a.length = size) : a.pieces size = [a] := by
  rw [pieces, h, Nat.div_self hpos]
  simp [piece, ← h]

/-- The pieces are the data up to what is left behind the last of them. -/
theorem flatten_pieces (data : Bytes) (size : Nat) :
    (data.pieces size).flatten = data.take (size * (data.length / size)) := by
  rw [pieces]
  induction data.length / size with
  | zero => simp
  | succ k ih =>
    rw [List.range_succ, List.map_append, List.flatten_append, ih, Nat.mul_succ, List.take_add]
    simp [piece]

theorem length_of_mem_pieces {p : Bytes} (hp : p ∈ data.pieces size) : p.length = size := by
  obtain ⟨i, hi, rfl⟩ := List.mem_map.1 hp
  have hle : size * (i + 1) ≤ data.length :=
    Nat.le_trans (Nat.mul_le_mul_left size (List.mem_range.1 hi)) (Nat.mul_div_le _ _)
  rw [Nat.mul_succ] at hle
  rw [piece, List.length_take, List.length_drop]
  omega

/-! ## All runs -/

theorem length_piece_le (data : Bytes) (size i : Nat) : (data.piece size i).length ≤ size :=
  List.length_take_le _ _

theorem piece_succ (data : Bytes) (size i : Nat) :
    data.piece size (i + 1) = piece (data.drop size) size i := by
  rw [piece, piece, List.drop_drop, Nat.mul_succ, Nat.add_comm]

theorem chunks_nil (hpos : 0 < size) : chunks [] size = [] := by
  rw [chunks, List.length_nil, Nat.zero_add, Nat.div_eq_of_lt (Nat.sub_one_lt_of_lt hpos)]
  rfl

/-- The first run is cut off the front. -/
theorem chunks_eq_cons (hpos : 0 < size) (hdata : data ≠ []) :
    data.chunks size = data.take size :: chunks (data.drop size) size := by
  have hlength := List.length_pos_iff.2 hdata
  have hcount : (data.length + size - 1) / size = ((data.drop size).length + size - 1) / size + 1 := by
    rw [List.length_drop]
    rcases Nat.le_total size data.length with hle | hle
    · rw [← Nat.add_div_right _ hpos]
      congr 1
      omega
    · have hone : (data.length + size - 1) / size = 1 := Nat.div_eq_of_lt_le (by omega) (by omega)
      rw [hone, Nat.sub_eq_zero_of_le hle, Nat.zero_add, Nat.div_eq_of_lt (by omega)]
  rw [chunks, chunks, hcount, List.range_succ_eq_map, List.map_cons, List.map_map]
  congr 1
  exact List.map_congr_left fun i _ => piece_succ data size i

/-! ## Zeros behind -/

/-- High zeros do not change a number. -/
theorem toNatLE_append_zeros (data : Bytes) (count : Nat) :
    toNatLE (data ++ List.replicate count 0) = toNatLE data := by
  induction data with
  | nil =>
    induction count with
    | zero => rfl
    | succ count ih =>
      simp only [List.nil_append, List.replicate_succ, toNatLE] at ih ⊢
      rw [ih]
      rfl
  | cons b rest ih => rw [List.cons_append, toNatLE, toNatLE, ih]

/-- Zeros behind the bytes fill their last run up. -/
theorem piece_append_zeros {zeros count : Nat} (hlength : data.length + zeros = size * count)
    (hi : i < count) :
    piece (data ++ List.replicate zeros 0) size i =
      data.piece size i ++ List.replicate (size - (data.piece size i).length) 0 := by
  have hle : size * i + size ≤ size * count := by
    rw [← Nat.mul_succ]
    exact Nat.mul_le_mul_left size hi
  have hmin : ∀ n : Nat, size - min size n = size - n := by omega
  rw [piece, piece, List.drop_append, List.take_append, List.length_drop, List.drop_replicate,
    List.take_replicate, List.length_take, List.length_drop, hmin]
  congr 2
  omega

/-- Filled up with zeros, the runs are whole. -/
theorem map_chunks_zeros (hpos : 0 < size) {zeros : Nat}
    (hlength : data.length + zeros = size * ((data.length + size - 1) / size)) :
    (data.chunks size).map (fun p => p ++ List.replicate (size - p.length) 0) =
      pieces (data ++ List.replicate zeros 0) size := by
  rw [chunks, List.map_map, pieces, List.length_append, List.length_replicate, hlength,
    Nat.mul_div_cancel_left _ hpos]
  exact List.map_congr_left fun i hi => (piece_append_zeros hlength (List.mem_range.1 hi)).symm

/-- Where zeros make words of the bytes, they make words of the last of longer runs. -/
theorem flatMap_chunks_zeros (hpos : 0 < size) {width : Nat} (hdvd : width ∣ size) (data : Bytes) :
    (data.chunks size).flatMap (fun p => p ++ List.replicate (p.length % width) 0) =
      data ++ List.replicate (data.length % width) 0 := by
  induction h : data.length using Nat.strongRecOn generalizing data with
  | _ n ih =>
    subst h
    by_cases hdata : data = []
    · rw [hdata, chunks_nil hpos, List.length_nil, Nat.zero_mod]
      rfl
    · have hlength := List.length_pos_iff.2 hdata
      have hshorter : (data.drop size).length < data.length := by
        rw [List.length_drop]
        omega
      rw [chunks_eq_cons hpos hdata, List.flatMap_cons, ih _ hshorter _ rfl, List.length_take,
        List.length_drop]
      rcases Nat.lt_or_ge data.length size with hlt | hge
      · rw [List.take_of_length_le (Nat.le_of_lt hlt), List.drop_of_length_le (Nat.le_of_lt hlt),
          Nat.min_eq_right (Nat.le_of_lt hlt), Nat.sub_eq_zero_of_le (Nat.le_of_lt hlt),
          Nat.zero_mod, List.replicate_zero, List.append_nil, List.append_nil]
      · have hmod : (data.length - size) % width = data.length % width := by
          obtain ⟨k, rfl⟩ := hdvd
          exact Nat.sub_mul_mod hge
        rw [Nat.min_eq_left hge, Nat.mod_eq_zero_of_dvd hdvd, hmod, List.replicate_zero,
          List.append_nil, ← List.append_assoc, List.take_append_drop]

end EventTrace.Bytes
