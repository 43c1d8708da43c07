import EventTrace.Proofs.Hexdump.Machine

/-!
# Hex dumps show every byte once

A dump has a line for every sixteen bytes, and each line shows those of its place at their address. As
no part of a line ends it, the lines are what is between the line ends, and reading the numbers of all of
them gives the bytes back, with a zero where the last word lacks its second half
(`Hexdump.dump_shows_bytes`).
-/

namespace EventTrace.Hexdump

variable {f : HexdumpFormat} {data : Bytes} {n : Nat}

/-! ## Lines between line ends -/

/-- The parts of the lines of a dump. -/
def rows (f : HexdumpFormat) (offset : Nat) (data : Bytes) : List Row :=
  (data.chunks lineBytes).mapIdx fun i piece => row f (offset + lineBytes * i) piece

theorem lines_eq_map_chars (f : HexdumpFormat) (offset : Nat) (data : Bytes) :
    lines f offset data = (rows f offset data).map Row.chars := by
  refine List.ext_getElem (by simp [lines, rows]) fun i _ _ => ?_
  simp only [lines, rows, List.getElem_mapIdx, List.getElem_map, line_eq_chars]

theorem length_rows (f : HexdumpFormat) (offset : Nat) (data : Bytes) :
    (rows f offset data).length = (data.length + 15) / 16 := by
  rw [rows, List.length_mapIdx, Bytes.length_chunks]
  rfl

theorem rows_show (f : HexdumpFormat) (offset : Nat) (data : Bytes) {i : Nat} {r : Row}
    (hr : (rows f offset data)[i]? = some r) :
    r.Shows f (offset + 16 * i) (data.piece 16 i) := by
  obtain ⟨hi, rfl⟩ := List.getElem?_eq_some_iff.1 hr
  simp only [rows, List.getElem_mapIdx, Bytes.chunks, List.getElem_map, List.getElem_range]
  exact row_shows f _ (Bytes.length_piece_le data lineBytes i)

/-- A line has no line end in it. -/
theorem newline_not_mem_chars {r : Row} (h : r.Shows f n data) : '\n' ∉ r.chars := by
  have hnumbers : ∀ cs ∈ r.numbers, '\n' ∉ cs :=
    forall_mem_of_forall₂ h.numbers fun _ _ hcs =>
      not_mem_of_spellsNat hcs.spells (by cases f <;> decide)
  have htext : ∀ c ∈ r.text, c ≠ '\n' := by
    refine forall_mem_of_forall₂ h.text fun b c hc => ?_
    by_cases hb : 0x20 ≤ b.toNat ∧ b.toNat ≤ 0x7E
    · rintro rfl
      have hcode : 10 = b.toNat := hc.printable hb
      omega
    · rw [hc.other hb]
      decide
  have haddress : '\n' ∉ r.address := not_mem_of_spellsNat h.address.spells (by decide)
  have hcolumns : '\n' ∉ r.columns := by
    rw [Row.columns, List.mem_flatMap]
    rintro ⟨cs, hcs, hmem⟩
    rw [List.mem_cons] at hmem
    exact hmem.elim (by decide) (hnumbers cs hcs)
  have hgap : '\n' ∉ List.replicate r.gap ' ' := fun hmem =>
    absurd (List.eq_of_mem_replicate hmem) (by decide)
  simp only [Row.chars, List.mem_append, List.mem_cons, not_or]
  exact ⟨⟨haddress, by decide, hcolumns, hgap⟩, fun hmem => htext _ hmem rfl⟩

/-- Parts with an end each are those between the ends, and an empty one behind. -/
theorem flatMap_append_eq_intercalate (mark : Char) (parts : List (List Char)) :
    parts.flatMap (· ++ [mark]) = [mark].intercalate (parts ++ [[]]) := by
  induction parts with
  | nil => rfl
  | cons part parts ih =>
    rw [List.flatMap_cons, ih, List.cons_append, List.intercalate_cons_of_ne_nil (by simp),
      List.append_assoc]

/-- The lines of a dump are what is between the line ends. -/
theorem splitOn_hexdump (data : Bytes) (offset : Nat) (f : HexdumpFormat) :
    (hexdump data offset f).toList.splitOn '\n' = (rows f offset data).map Row.chars ++ [[]] := by
  rw [hexdump, String.toList_ofList, flatMap_append_eq_intercalate, lines_eq_map_chars]
  refine List.splitOn_intercalate '\n' (fun cs hcs => ?_) (by simp)
  rw [List.mem_append, List.mem_singleton, List.mem_map] at hcs
  obtain ⟨r, hr, rfl⟩ | rfl := hcs
  · obtain ⟨i, hi⟩ := List.getElem?_of_mem hr
    exact newline_not_mem_chars (rows_show f offset data hi)
  · exact List.not_mem_nil

/-! ## Reading -/

theorem filled_piece_rows (f : HexdumpFormat) (data : Bytes) :
    (data.chunks lineBytes).flatMap (filled f) = filled f data :=
  Bytes.flatMap_chunks_zeros (by decide) (wordBytes_dvd_lineBytes f) data

/-- Reading a dump gives the bytes back, up to whole words. -/
theorem read_hexdump (data : Bytes) (offset : Nat) (f : HexdumpFormat) :
    read f (hexdump data offset f) = some (filled f data) := by
  have hrows : List.Forall₂ (fun bytes cs => readLine f cs = some bytes)
      ((data.chunks lineBytes).map (filled f)) ((rows f offset data).map Row.chars) := by
    rw [List.forall₂_map_left_iff, List.forall₂_map_right_iff]
    refine List.forall₂_iff_get.2 ⟨by simp [rows], fun i hi hi' => ?_⟩
    have hpiece : (data.chunks lineBytes).get ⟨i, hi⟩ = data.piece 16 i := by
      simp [Bytes.chunks, lineBytes]
    rw [hpiece]
    exact readLine_chars (rows_show f offset data (List.getElem?_eq_getElem hi'))
  have hend : readLine f [] = some [] := by cases f <;> rfl
  rw [read, splitOn_hexdump, mapM_eq_some (List.rel_append hrows (.cons hend .nil)), Option.map_some,
    List.flatten_append, ← List.flatMap_def, filled_piece_rows]
  simp

/-- Every line of a dump shows the bytes of its place at their address, reading the numbers of all
lines gives the bytes back, and a machine for which the addresses are words writes the dump. -/
theorem dump_shows_bytes (data : Bytes) (offset : Nat) (f : HexdumpFormat) :
    (∃ rows : List Row,
      (hexdump data offset f).toList.splitOn '\n' = rows.map Row.chars ++ [[]] ∧
      rows.length = (data.length + 15) / 16 ∧
      ∀ (i : Nat) (r : Row), rows[i]? = some r → r.Shows f (offset + 16 * i) (data.piece 16 i)) ∧
    read f (hexdump data offset f) = some (data ++ List.replicate (data.length % f.wordBytes) 0) ∧
    (offset + data.length < lengthBound → data.length ≤ Machine.capacity →
      Machine.hexdump data offset f = some (hexdump data offset f)) :=
  ⟨⟨rows f offset data, splitOn_hexdump data offset f, length_rows f offset data,
      fun _ _ hr => rows_show f offset data hr⟩,
    read_hexdump data offset f, fun hoffset hdata => Machine.hexdump_eq hoffset hdata f⟩

/-- An odd byte, at the last address that a word holds, is a word with zeros above. -/
theorem dump_shows_bytes_topmost :
    lengthBound - 4 + 3 < lengthBound ∧ 3 ≤ Machine.capacity ∧
      Machine.hexdump [0x61, 0x0A, 0x62] (lengthBound - 4) .words =
        some (hexdump [0x61, 0x0A, 0x62] (lengthBound - 4) .words) ∧
      read .words (hexdump [0x61, 0x0A, 0x62] (lengthBound - 4) .words) =
        some [0x61, 0x0A, 0x62, 0] := by
  obtain ⟨-, hread, hmachine⟩ := dump_shows_bytes [0x61, 0x0A, 0x62] (lengthBound - 4) .words
  have hoffset : lengthBound - 4 + 3 < lengthBound := by decide
  have hdata : 3 ≤ Machine.capacity := by decide
  exact ⟨hoffset, hdata, hmachine hoffset hdata, hread⟩

/-- The numbers of a short line are followed by the room of those that it lacks. -/
example : (hexdump [0x61, 0x0A, 0x62] 16 .words).toList =
    "00000010: 0a61 0062".toList ++ List.replicate 32 ' ' ++ "a.b\n".toList := by decide

end EventTrace.Hexdump
