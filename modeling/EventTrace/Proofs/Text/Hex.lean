import EventTrace.Proofs.Text.Utf8
import EventTrace.Text.Hex

/-!
# Hexadecimal text is read back

Writing bytes as pairs of digits and reading the pairs gives the bytes (`Hex.decode_encode`). All of
the text is ASCII, so that each character is one byte of it.

Exactly an even number of digits, in either case, is read (`Hex.exists_decode_iff`), and what was read
is written as the text in lower case (`Hex.encode_of_decode`).
-/

namespace EventTrace.Hex

/-- The code of the lower-case digit of a number below sixteen. -/
def lowerCode (n : Nat) : UInt8 := if n < 10 then UInt8.ofNat (48 + n) else UInt8.ofNat (87 + n)

theorem utf8EncodeChar_lowerDigit {n : Nat} (hn : n < 16) :
    String.utf8EncodeChar (lowerDigit n) = [lowerCode n] := by
  have hall : ∀ i : Fin 16, String.utf8EncodeChar (lowerDigit i) = [lowerCode i] := by decide
  exact hall ⟨n, hn⟩

theorem digitValue?_lowerCode {n : Nat} (hn : n < 16) :
    digitValue? (lowerCode n).toNat = some n := by
  have hall : ∀ i : Fin 16, digitValue? (lowerCode i).toNat = some i.val := by decide
  exact hall ⟨n, hn⟩

/-- The codes of the digits of some bytes. -/
def encodeCodes (data : Bytes) : Bytes :=
  data.flatMap fun b => [lowerCode (b.toNat / 16), lowerCode (b.toNat % 16)]

theorem flatMap_utf8EncodeChar_pair (b : UInt8) :
    (pair lowerDigit b).flatMap String.utf8EncodeChar =
      [lowerCode (b.toNat / 16), lowerCode (b.toNat % 16)] := by
  have hb : b.toNat < 256 := b.toNat_lt
  rw [pair, List.flatMap_cons, List.flatMap_cons, List.flatMap_nil,
    utf8EncodeChar_lowerDigit (by omega), utf8EncodeChar_lowerDigit (by omega)]
  rfl

theorem utf8_encode (data : Bytes) : utf8 (encode data) = encodeCodes data := by
  rw [utf8, encode, String.toList_ofList, encodeChars, List.flatMap_assoc]
  simp only [flatMap_utf8EncodeChar_pair]
  rfl

theorem length_encodeCodes (data : Bytes) : (encodeCodes data).length = 2 * data.length := by
  induction data with
  | nil => rfl
  | cons b data ih =>
    rw [encodeCodes, List.flatMap_cons, List.length_append, ← encodeCodes, ih, List.length_cons]
    simp only [List.length_cons, List.length_nil]
    omega

/-- Bytes are read back from their digits, wherever the digits stand. -/
theorem decodePairs_encodeCodes (position : Nat) (data : Bytes) :
    decodePairs position (encodeCodes data) = .ok data := by
  induction data generalizing position with
  | nil => rfl
  | cons b data ih =>
    have hb : b.toNat < 256 := b.toNat_lt
    have hhigh := digitValue?_lowerCode (n := b.toNat / 16) (by omega)
    have hlow := digitValue?_lowerCode (n := b.toNat % 16) (by omega)
    have hbyte : 16 * (b.toNat / 16) + b.toNat % 16 = b.toNat := Nat.div_add_mod _ _
    rw [encodeCodes, List.flatMap_cons, ← encodeCodes, List.cons_append, List.cons_append,
      List.nil_append, decodePairs, hhigh, hlow]
    simp only [ih, Except.map, hbyte, UInt8.ofNat_toNat]

/-- The text of some bytes is read back as these bytes. -/
theorem decode_encode (data : Bytes) : decode (encode data) = .ok data := by
  have heven : (encodeCodes data).length % 2 ≠ 1 := by
    rw [length_encodeCodes]
    omega
  rw [decode, utf8_encode, decodeBytes, if_neg heven, decodePairs_encodeCodes]

/-! ## Digits -/

def digits : List Char := "0123456789abcdefABCDEF".toList

/-- What every digit is, one by one, all of them are. -/
theorem forall_mem_digits {P : Char → Prop} [DecidablePred P] (h : digits.all fun c => P c) :
    ∀ c ∈ digits, P c := by
  simpa only [List.all_eq_true, decide_eq_true_eq] using h

/-- Whether a text is digits in either case, and an even number of them. -/
structure IsText (s : String) : Prop where
  even : s.length % 2 = 0
  digits : ∀ c ∈ s.toList, c ∈ digits

/-- The byte of an ASCII character. -/
def code (c : Char) : UInt8 := UInt8.ofNat c.toNat

theorem utf8EncodeChar_of_mem {c : Char} (h : c ∈ digits) : String.utf8EncodeChar c = [code c] := by
  have hall : ∀ c ∈ digits, String.utf8EncodeChar c = [code c] := forall_mem_digits (by decide)
  exact hall c h

/-- The byte of a digit has a value, and the lower-case digit of that value is the digit in lower
case. -/
theorem digitValue?_code {c : Char} (h : c ∈ digits) :
    ∃ n : Fin 16, digitValue? (code c).toNat = some n.val ∧ lowerDigit n = c.toLower := by
  have hall : ∀ c ∈ digits, ∃ n : Fin 16,
      digitValue? (code c).toNat = some n.val ∧ lowerDigit n = c.toLower :=
    forall_mem_digits (by decide)
  exact hall c h

theorem digitValue?_eq_none {n : Nat} (h : 128 ≤ n) : digitValue? n = none := by
  rw [digitValue?, if_neg (by omega), if_neg (by omega), if_neg (by omega)]

/-- A character with a value is a digit. -/
theorem mem_digits_of_charValue? {c : Char} {n : Nat} (h : charValue? c = some n) : c ∈ digits := by
  have hall : ∀ n : Fin 128, (digitValue? n.val).isSome → Char.ofNat n.val ∈ digits := by decide
  by_cases hascii : c.toNat < 128
  · have hmem := hall ⟨c.toNat, hascii⟩ (Option.isSome_of_eq_some h)
    rwa [Char.ofNat_toNat] at hmem
  · rw [charValue?, digitValue?_eq_none (Nat.not_lt.1 hascii)] at h
    cases h

/-- A character of whose bytes every one is a digit is a digit. -/
theorem mem_digits {c : Char} (h : ∀ b ∈ String.utf8EncodeChar c, (digitValue? b.toNat).isSome) :
    c ∈ digits := by
  by_cases hascii : c.toNat < 128
  · rw [Utf8.utf8EncodeChar_of_ascii hascii] at h
    have hvalue := h _ (List.mem_singleton_self _)
    rw [UInt8.toNat_ofNat', Nat.mod_eq_of_lt (by omega)] at hvalue
    exact mem_digits_of_charValue? (Option.some_get hvalue).symm
  · obtain ⟨lead, rest, henc, -⟩ := Utf8.exists_utf8EncodeChar c
    have hlead : lead ∈ String.utf8EncodeChar c := henc ▸ .head _
    have hsome := h lead hlead
    rw [digitValue?_eq_none (Utf8.le_of_mem_utf8EncodeChar (Nat.not_lt.1 hascii) hlead)] at hsome
    cases hsome

/-- A digit has a value, and the upper-case digit of that value is the digit in upper case. -/
theorem charValue?_of_mem {c : Char} (h : c ∈ digits) :
    ∃ n : Fin 16, charValue? c = some n.val ∧ upperDigit n = c.toUpper := by
  have hall : ∀ c ∈ digits, ∃ n : Fin 16, charValue? c = some n.val ∧ upperDigit n = c.toUpper :=
    forall_mem_digits (by decide)
  exact hall c h

/-! ## Exactly texts of digits are read -/

/-- Where pairs are read, all bytes are digits. -/
theorem isSome_of_decodePairs {position : Nat} {codes data : Bytes} (heven : codes.length % 2 = 0)
    (h : decodePairs position codes = .ok data) : ∀ b ∈ codes, (digitValue? b.toNat).isSome := by
  fun_induction decodePairs position codes generalizing data with
  | case1 => cases h
  | case2 => cases h
  | case3 position high low rest vhigh hhigh vlow hlow ih =>
    rw [List.length_cons, List.length_cons] at heven
    intro b hb
    cases htail : decodePairs (position + 2) rest with
    | error e =>
      rw [htail] at h
      cases h
    | ok tail =>
      rcases List.mem_cons.1 hb with rfl | hb
      · exact Option.isSome_of_eq_some hlow
      rcases List.mem_cons.1 hb with rfl | hb
      · exact Option.isSome_of_eq_some vlow
      · exact ih (by omega) htail b hb
  | case4 codes position hshort =>
    rcases codes with _ | ⟨b, _ | ⟨b', rest⟩⟩
    · simp
    · cases heven
    · exact (hshort b b' rest rfl).elim

/-- Pairs of digits are read, and written again in lower case. -/
theorem exists_decodePairs (position : Nat) : ∀ cs : List Char, cs.length % 2 = 0 →
    (∀ c ∈ cs, c ∈ digits) →
      ∃ data, decodePairs position (cs.map code) = .ok data ∧ encodeChars data = cs.map Char.toLower
  | [], _, _ => ⟨[], rfl, rfl⟩
  | [_], heven, _ => by cases heven
  | high :: low :: rest, heven, hdigits => by
    obtain ⟨hhigh, hdigits⟩ := List.forall_mem_cons.1 hdigits
    obtain ⟨hlow, hdigits⟩ := List.forall_mem_cons.1 hdigits
    obtain ⟨h, hh, hhlower⟩ := digitValue?_code hhigh
    obtain ⟨l, hl, hllower⟩ := digitValue?_code hlow
    rw [List.length_cons, List.length_cons] at heven
    obtain ⟨tail, htail, hlower⟩ := exists_decodePairs (position + 2) rest (by omega) hdigits
    have hbyte : (UInt8.ofNat (16 * h.val + l.val)).toNat = 16 * h.val + l.val := by
      rw [UInt8.toNat_ofNat']
      omega
    refine ⟨UInt8.ofNat (16 * h + l) :: tail, ?_, ?_⟩
    · rw [List.map_cons, List.map_cons, decodePairs]
      simp only [hh, hl, htail, Except.map]
    · have hdiv : (16 * h.val + l.val) / 16 = h.val := by omega
      have hmod : (16 * h.val + l.val) % 16 = l.val := by omega
      rw [encodeChars, List.flatMap_cons, ← encodeChars, hlower, pair, hbyte, hdiv, hmod, hhlower,
        hllower]
      rfl

theorem utf8_of_digits {s : String} (h : ∀ c ∈ s.toList, c ∈ digits) : utf8 s = s.toList.map code := by
  rw [utf8]
  generalize s.toList = cs at h ⊢
  induction cs with
  | nil => rfl
  | cons c cs ih =>
    obtain ⟨hc, hcs⟩ := List.forall_mem_cons.1 h
    rw [List.flatMap_cons, utf8EncodeChar_of_mem hc, ih hcs]
    rfl

theorem toList_toLower (s : String) : s.toLower.toList = s.toList.map Char.toLower :=
  String.toList_map

/-- A text of digits is read, and what was read is written as the text in lower case. -/
theorem IsText.exists_decode {s : String} (h : IsText s) :
    ∃ data, decode s = .ok data ∧ encode data = s.toLower := by
  have heven : s.toList.length % 2 = 0 := String.length_toList ▸ h.even
  obtain ⟨data, hdata, hlower⟩ := exists_decodePairs 0 s.toList heven h.digits
  refine ⟨data, ?_, ?_⟩
  · have hodd : ¬(s.toList.map code).length % 2 = 1 := by
      rw [List.length_map]
      omega
    rw [decode, utf8_of_digits h.digits, decodeBytes, if_neg hodd, hdata]
  · rw [← String.toList_inj, encode, String.toList_ofList, hlower, toList_toLower]

/-- Only pairs of digits are decoded. -/
theorem isText_of_decode {s : String} {data : Bytes} (h : decode s = .ok data) : IsText s := by
  rw [decode, decodeBytes] at h
  split at h
  · cases h
  · rename_i hodd
    have hcodes := isSome_of_decodePairs (by omega) h
    have hdigits : ∀ c ∈ s.toList, c ∈ digits := fun c hc =>
      mem_digits fun b hb => hcodes b (List.mem_flatMap.2 ⟨c, hc, hb⟩)
    rw [utf8_of_digits hdigits, List.length_map, String.length_toList] at hodd
    exact ⟨by omega, hdigits⟩

/-- A text is decoded exactly if it is made of pairs of digits. -/
theorem exists_decode_iff {s : String} : (∃ data, decode s = .ok data) ↔ IsText s := by
  constructor
  · rintro ⟨data, h⟩
    exact isText_of_decode h
  · intro h
    obtain ⟨data, hdata, -⟩ := h.exists_decode
    exact ⟨data, hdata⟩

/-- What was read is written as the text in lower case. -/
theorem encode_of_decode {s : String} {data : Bytes} (h : decode s = .ok data) :
    encode data = s.toLower := by
  obtain ⟨data', hdata, hlower⟩ := (isText_of_decode h).exists_decode
  rwa [Except.ok.inj (h.symm.trans hdata)]

/-- Each byte is shown with two digits. -/
theorem length_encode (data : Bytes) : (encode data).length = 2 * data.length := by
  rw [← String.length_toList, encode, String.toList_ofList]
  induction data with
  | nil => rfl
  | cons b data ih =>
    rw [encodeChars, List.flatMap_cons, List.length_append, ← encodeChars, ih, List.length_cons]
    simp only [pair, List.length_cons, List.length_nil]
    omega

/-- Two digits are one byte. -/
theorem length_of_decode {s : String} {data : Bytes} (h : decode s = .ok data) :
    data.length = s.length / 2 := by
  have hlength := length_encode data
  rw [encode_of_decode h, ← String.length_toList, toList_toLower, List.length_map,
    String.length_toList] at hlength
  omega

end EventTrace.Hex
