import EventTrace.Text.Utf16

/-!
# UTF-16: decoding and encoding

A character is read back from its units, whether they are one or a surrogate pair, and units are read
back from their bytes; so a text is read back from its bytes (`decode_encode`). No two sequences of
bytes are the same text, so the bytes of a text that was read are those that it was read from
(`encode_of_decode`).
-/

namespace EventTrace.Utf16

/-! ## Units and bytes -/

/-- The first two bytes are the first unit, low byte first. -/
theorem units_unitBytes_append (u : UInt16) (rest : Bytes) :
    units (unitBytes u ++ rest) = u :: units rest := by
  have hu : u.toNat < 65536 := u.toNat_lt
  have hunit : UInt16.ofNat ((UInt8.ofNat u.toNat).toNat +
      256 * (UInt8.ofNat (u.toNat / 256)).toNat) = u := by
    apply UInt16.toNat_inj.1
    simp only [UInt16.toNat_ofNat', UInt8.toNat_ofNat']
    omega
  simp only [unitBytes, List.cons_append, List.nil_append, units, hunit]

theorem units_flatMap_unitBytes (us : List UInt16) : units (us.flatMap unitBytes) = us := by
  induction us with
  | nil => rfl
  | cons u us ih => rw [List.flatMap_cons, units_unitBytes_append, ih]

/-- A unit is written again to the bytes it was read from. -/
theorem unitBytes_ofNat (low high : UInt8) :
    unitBytes (UInt16.ofNat (low.toNat + 256 * high.toNat)) = [low, high] := by
  have hlow : low.toNat < 256 := low.toNat_lt
  have hhigh : high.toNat < 256 := high.toNat_lt
  have hunit : (UInt16.ofNat (low.toNat + 256 * high.toNat)).toNat = low.toNat + 256 * high.toNat := by
    rw [UInt16.toNat_ofNat']
    omega
  rw [unitBytes, hunit]
  congr 1
  · exact UInt8.toNat_inj.1 (by simp only [UInt8.toNat_ofNat']; omega)
  · rw [show (low.toNat + 256 * high.toNat) / 256 = high.toNat by omega, UInt8.ofNat_toNat]

/-- An even number of bytes is written again by the units they spell. -/
theorem flatMap_unitBytes_units (data : Bytes) (heven : data.length % 2 = 0) :
    (units data).flatMap unitBytes = data := by
  induction data using units.induct with
  | case1 low high rest ih =>
    have heven' : rest.length % 2 = 0 := by
      rw [List.length_cons, List.length_cons] at heven
      omega
    rw [units, List.flatMap_cons, unitBytes_ofNat, ih heven']
    rfl
  | case2 data hshort =>
    match data with
    | [] => rfl
    | [b] => simp at heven
    | low :: high :: rest => exact absurd rfl (hshort low high rest)

theorem unitBytes_ofNat_of_lt {n : Nat} (h : n < 0x10000) :
    unitBytes (UInt16.ofNat n) = [UInt8.ofNat (n % 256), UInt8.ofNat (n / 256)] := by
  rw [unitBytes, UInt16.toNat_ofNat_of_lt' h]
  congr 1
  exact UInt8.toNat_inj.1 (by simp only [UInt8.toNat_ofNat']; omega)

/-- An odd byte at the end belongs to no unit. -/
theorem units_take_whole (raw : Bytes) : units (raw.take (raw.length - raw.length % 2)) = units raw := by
  induction raw using units.induct with
  | case1 low high rest ih =>
    have hwhole : (low :: high :: rest).length - (low :: high :: rest).length % 2 =
        rest.length - rest.length % 2 + 2 := by
      rw [List.length_cons, List.length_cons]
      omega
    rw [hwhole, List.take_succ_cons, List.take_succ_cons, units, units, ih]
  | case2 raw hshort =>
    match raw with
    | [] | [_] => rfl
    | low :: high :: rest => exact absurd rfl (hshort low high rest)

theorem length_flatMap_unitBytes (us : List UInt16) :
    (us.flatMap unitBytes).length = 2 * us.length := by
  induction us with
  | nil => rfl
  | cons u us ih =>
    rw [List.flatMap_cons, List.length_append, ih, List.length_cons]
    simp only [unitBytes, List.length_cons, List.length_nil]
    omega

/-- Text takes an even number of bytes. -/
theorem two_dvd_length_encode (s : String) : 2 ∣ (encode s).length :=
  ⟨_, length_flatMap_unitBytes _⟩

/-! ## Characters and units -/

/-- No character is a surrogate. -/
theorem char_toNat_cases (c : Char) : c.toNat < 0xD800 ∨ 0xDFFF < c.toNat ∧ c.toNat < 0x110000 :=
  c.valid

theorem char_toNat_ofNat {n : Nat} (h : n.isValidChar) : (Char.ofNat n).toNat = n := by
  have hchar : Char.ofNat n = Char.ofNatAux n h := dif_pos h
  rw [hchar]
  rfl

theorem decodeUnits_plain {u : UInt16} (hhigh : isHigh u = false) (hlow : isLow u = false)
    (rest : List UInt16) :
    decodeUnits (u :: rest) = (decodeUnits rest).map (Char.ofNat u.toNat :: ·) := by
  rw [decodeUnits.eq_def]
  simp [hhigh, hlow]

theorem decodeUnits_pair {high low : UInt16} (hhigh : isHigh high = true) (hlow : isLow low = true)
    (rest : List UInt16) :
    decodeUnits (high :: low :: rest) = (decodeUnits rest).map (joinPair high low :: ·) := by
  rw [decodeUnits.eq_def]
  simp [hhigh, hlow]

theorem toNat_ofNat_of_lt {n : Nat} (h : n < 65536) : (UInt16.ofNat n).toNat = n := by
  rw [UInt16.toNat_ofNat']
  exact Nat.mod_eq_of_lt h

/-- The units of a character are read back before any others. -/
theorem decodeUnits_charUnits_append (c : Char) (rest : List UInt16) :
    decodeUnits (charUnits c ++ rest) = (decodeUnits rest).map (c :: ·) := by
  have hc := char_toNat_cases c
  by_cases hplane : c.toNat < 0x10000
  · have hunit := toNat_ofNat_of_lt hplane
    rw [charUnits, if_pos hplane, List.singleton_append, decodeUnits_plain, hunit, Char.ofNat_toNat]
    · simp only [isHigh, hunit, Bool.and_eq_false_iff, decide_eq_false_iff_not]
      omega
    · simp only [isLow, hunit, Bool.and_eq_false_iff, decide_eq_false_iff_not]
      omega
  · obtain ⟨n, hn⟩ : ∃ n, c.toNat = 0x10000 + n := ⟨c.toNat - 0x10000, by omega⟩
    have hhigh : (UInt16.ofNat (0xD800 + n / 1024)).toNat = 0xD800 + n / 1024 :=
      toNat_ofNat_of_lt (by omega)
    have hlow : (UInt16.ofNat (0xDC00 + n % 1024)).toNat = 0xDC00 + n % 1024 :=
      toNat_ofNat_of_lt (by omega)
    have hsum : 0x10000 + 1024 * (0xD800 + n / 1024 - 0xD800) + (0xDC00 + n % 1024 - 0xDC00) =
        0x10000 + n := by
      omega
    have hjoin : joinPair (UInt16.ofNat (0xD800 + n / 1024)) (UInt16.ofNat (0xDC00 + n % 1024)) =
        c := by
      rw [joinPair, hhigh, hlow, hsum, ← hn, Char.ofNat_toNat]
    rw [charUnits, if_neg hplane, hn, Nat.add_sub_cancel_left, List.cons_append,
      List.singleton_append, decodeUnits_pair, hjoin]
    · simp only [isHigh, hhigh, Bool.and_eq_true, decide_eq_true_eq]
      omega
    · simp only [isLow, hlow, Bool.and_eq_true, decide_eq_true_eq]
      omega

/-- A unit that is no surrogate is written again by its character. -/
theorem charUnits_ofNat {u : UInt16} (hhigh : isHigh u = false) (hlow : isLow u = false) :
    charUnits (Char.ofNat u.toNat) = [u] := by
  have hlt : u.toNat < 65536 := u.toNat_lt
  simp only [isHigh, isLow, Bool.and_eq_false_iff, decide_eq_false_iff_not] at hhigh hlow
  have hvalid : u.toNat.isValidChar := by
    rw [Nat.isValidChar]
    omega
  have hchar : (Char.ofNat u.toNat).toNat = u.toNat := char_toNat_ofNat hvalid
  rw [charUnits, hchar, if_pos hlt, UInt16.ofNat_toNat]

/-- A pair of surrogates is written again by the character that it joins to. -/
theorem charUnits_joinPair {high low : UInt16} (hhigh : isHigh high = true)
    (hlow : isLow low = true) : charUnits (joinPair high low) = [high, low] := by
  simp only [isHigh, isLow, Bool.and_eq_true, decide_eq_true_eq] at hhigh hlow
  obtain ⟨a, ha⟩ : ∃ a, high.toNat = 0xD800 + a := ⟨high.toNat - 0xD800, by omega⟩
  obtain ⟨b, hb⟩ : ∃ b, low.toNat = 0xDC00 + b := ⟨low.toNat - 0xDC00, by omega⟩
  have hvalid : (0x10000 + 1024 * a + b).isValidChar := by
    rw [Nat.isValidChar]
    omega
  have hchar : (joinPair high low).toNat = 0x10000 + 1024 * a + b := by
    rw [joinPair, ha, hb, Nat.add_sub_cancel_left, Nat.add_sub_cancel_left, char_toNat_ofNat hvalid]
  have hhalf : 0xD800 + (0x10000 + 1024 * a + b - 0x10000) / 1024 = high.toNat := by omega
  have hrest : 0xDC00 + (0x10000 + 1024 * a + b - 0x10000) % 1024 = low.toNat := by omega
  simp only [charUnits, hchar, hhalf, hrest, UInt16.ofNat_toNat]
  rw [if_neg (by omega)]

/-- The units of characters that were read are those that they were read from. -/
theorem flatMap_charUnits_of_decodeUnits {us : List UInt16} {cs : List Char}
    (h : decodeUnits us = .ok cs) : cs.flatMap charUnits = us := by
  induction us using decodeUnits.induct generalizing cs with
  | case1 =>
    cases h
    rfl
  | case2 u hhigh => simp [decodeUnits, hhigh] at h
  | case3 high hhigh low tail hlow ih =>
    rw [decodeUnits_pair hhigh hlow] at h
    cases htail : decodeUnits tail with
    | error f => simp [htail, Except.map] at h
    | ok cs' =>
      simp only [htail, Except.map, Except.ok.injEq] at h
      rw [← h, List.flatMap_cons, charUnits_joinPair hhigh hlow, ih htail]
      rfl
  | case4 high hhigh low tail hlow => simp [decodeUnits, hhigh, hlow] at h
  | case5 u tail hhigh hlow => simp [decodeUnits.eq_def, hhigh, hlow] at h
  | case6 u tail hhigh hlow ih =>
    rw [Bool.not_eq_true] at hhigh hlow
    rw [decodeUnits_plain hhigh hlow] at h
    cases htail : decodeUnits tail with
    | error f => simp [htail, Except.map] at h
    | ok cs' =>
      simp only [htail, Except.map, Except.ok.injEq] at h
      rw [← h, List.flatMap_cons, charUnits_ofNat hhigh hlow, ih htail]
      rfl

theorem decodeUnits_flatMap_charUnits (cs : List Char) :
    decodeUnits (cs.flatMap charUnits) = .ok cs := by
  induction cs with
  | nil => rfl
  | cons c cs ih => rw [List.flatMap_cons, decodeUnits_charUnits_append, ih]; rfl

/-- Units are refused for a surrogate that is not paired, and for nothing else. -/
theorem message_of_decodeUnits {us : List UInt16} {f : Fault} (h : decodeUnits us = .error f) :
    f.message = Fault.unpaired.message := by
  induction us using decodeUnits.induct with
  | case1 => cases h
  | case2 u hhigh =>
    simp only [decodeUnits, hhigh, if_true, Except.error.injEq] at h
    rw [← h]
    rfl
  | case3 high hhigh low tail hlow ih =>
    rw [decodeUnits_pair hhigh hlow] at h
    cases htail : decodeUnits tail with
    | error f' =>
      rw [htail] at h
      cases h
      exact ih htail
    | ok cs =>
      rw [htail] at h
      cases h
  | case4 high hhigh low tail hlow =>
    simp only [decodeUnits, hhigh, hlow, if_true, Bool.false_eq_true, if_false, Except.error.injEq] at h
    rw [← h]
  | case5 u tail hhigh hlow =>
    rw [decodeUnits.eq_def] at h
    simp only [hhigh, hlow, if_true, Bool.false_eq_true, if_false, Except.error.injEq] at h
    rw [← h]
  | case6 u tail hhigh hlow ih =>
    rw [Bool.not_eq_true] at hhigh hlow
    rw [decodeUnits_plain hhigh hlow] at h
    cases htail : decodeUnits tail with
    | error f' =>
      rw [htail] at h
      cases h
      exact ih htail
    | ok cs =>
      rw [htail] at h
      cases h

/-- The short way for units that are all ASCII leads where the long one does: no such unit is a
surrogate, and its low byte is all of it. -/
theorem decodeUnits_of_asciiChars? {us : List UInt16} {cs : List Char} (h : asciiChars? us = some cs) :
    decodeUnits us = .ok cs := by
  obtain ⟨hall, hcs⟩ := Option.ite_none_right_eq_some.1 h
  obtain rfl := Option.some.inj hcs
  clear h hcs
  induction us with
  | nil => rfl
  | cons u us ih =>
    obtain ⟨hu, hus⟩ : u.toNat ≤ 0x7F ∧ us.all (·.toNat ≤ 0x7F) = true := by simpa using hall
    have hhigh : isHigh u = false := by
      simp only [isHigh, Bool.and_eq_false_iff, decide_eq_false_iff_not]
      omega
    have hlow : isLow u = false := by
      simp only [isLow, Bool.and_eq_false_iff, decide_eq_false_iff_not]
      omega
    have hbyte : u.toUInt8.toNat = u.toNat := by
      rw [UInt16.toNat_toUInt8]
      omega
    rw [decodeUnits_plain hhigh hlow, ih hus, List.map_cons, hbyte]
    rfl

/-- Reading units in a loop is decoding them. -/
theorem readUnits_eq (us : List UInt16) : readUnits us = decodeUnits us := by
  rw [readUnits]
  cases h : asciiChars? us with
  | some cs => exact (decodeUnits_of_asciiChars? h).symm
  | none => rfl

/-- Whether units are those of a text. -/
def IsText (us : List UInt16) : Prop := ∃ cs : List Char, cs.flatMap charUnits = us

/-- Units are a text exactly if they are decoded. -/
theorem isText_iff {us : List UInt16} : IsText us ↔ ∃ cs, decodeUnits us = .ok cs := by
  constructor
  · rintro ⟨cs, rfl⟩
    exact ⟨cs, decodeUnits_flatMap_charUnits cs⟩
  · rintro ⟨cs, h⟩
    exact ⟨cs, flatMap_charUnits_of_decodeUnits h⟩

/-! ## Text and bytes -/

/-- A text is read back from its bytes. -/
theorem decode_encode (s : String) : decode (encode s) = .ok s := by
  have heven : (encode s).length % 2 ≠ 1 := by
    have := two_dvd_length_encode s
    omega
  rw [decode, if_neg heven, encode, encodeChars, units_flatMap_unitBytes, readUnits_eq,
    decodeUnits_flatMap_charUnits]
  exact congrArg Except.ok String.ofList_toList

/-- Bytes that are a text are written again by it. -/
theorem encode_of_decode {data : Bytes} {s : String} (h : decode data = .ok s) :
    encode s = data := by
  rw [decode, readUnits_eq] at h
  split at h
  · cases h
  · rename_i heven
    cases hcs : decodeUnits (units data) with
    | error f => simp [hcs, Except.map] at h
    | ok cs =>
      simp only [hcs, Except.map, Except.ok.injEq] at h
      rw [← h, encode, encodeChars, String.toList_ofList, flatMap_charUnits_of_decodeUnits hcs,
        flatMap_unitBytes_units data (by omega)]

theorem encode_append (s t : String) : encode (s ++ t) = encode s ++ encode t := by
  simp [encode, encodeChars]

theorem encode_singleton (c : Char) : encode (.singleton c) = (charUnits c).flatMap unitBytes := by
  simp [encode, encodeChars]

/-- A character of the first plane is one unit, the low byte of which comes first. -/
theorem encode_singleton_of_lt {c : Char} (h : c.toNat < 0x10000) :
    encode (.singleton c) = [UInt8.ofNat (c.toNat % 256), UInt8.ofNat (c.toNat / 256)] := by
  rw [encode_singleton, charUnits, if_pos h, List.flatMap_singleton, unitBytes_ofNat_of_lt h]

/-- Of a character beyond it, ten bits are in the first unit and ten in the second. -/
theorem encode_singleton_of_le {c : Char} {n : Nat} (h : c.toNat = 0x10000 + n) :
    encode (.singleton c) =
      [UInt8.ofNat (n / 1024 % 256), UInt8.ofNat (0xD8 + n / 1024 / 256),
        UInt8.ofNat (n % 256), UInt8.ofNat (0xDC + n % 1024 / 256)] := by
  have hmax := char_toNat_cases c
  have hhigh : 0xD800 + n / 1024 < 0x10000 := by omega
  have hlow : 0xDC00 + n % 1024 < 0x10000 := by omega
  have hsplit : (0xD800 + n / 1024) % 256 = n / 1024 % 256 ∧
      (0xD800 + n / 1024) / 256 = 0xD8 + n / 1024 / 256 ∧
      (0xDC00 + n % 1024) % 256 = n % 256 ∧
      (0xDC00 + n % 1024) / 256 = 0xDC + n % 1024 / 256 := by omega
  obtain ⟨hfirst, hsecond, hthird, hfourth⟩ := hsplit
  rw [encode_singleton, charUnits, if_neg (by omega), h, Nat.add_sub_cancel_left]
  simp only [List.flatMap_cons, List.flatMap_nil, unitBytes_ofNat_of_lt hhigh,
    unitBytes_ofNat_of_lt hlow, hfirst, hsecond, hthird, hfourth]
  rfl

end EventTrace.Utf16
