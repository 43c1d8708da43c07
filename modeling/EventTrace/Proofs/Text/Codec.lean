import EventTrace.Proofs.Text.Utf16
import EventTrace.Text.Codec
import Mathlib.Data.List.Nodup

/-!
# Codecs: decoding and encoding

A code page reads back every character that it has a byte for, as long as it lists no more than the
upper half; so the codecs that are code pages decode what they encoded. Where a page lists no
character twice, a byte is the only one of its character, and the codec encodes what it decoded.
-/

namespace EventTrace

namespace CodePage

variable {page : CodePage}

/-- A character is read back from its byte. -/
theorem decodeByte_of_encodeChar (hpage : page.upper.length ≤ 128) {c : Char} {b : UInt8}
    (h : page.encodeChar c = some b) : page.decodeByte b = some c := by
  rw [encodeChar] at h
  by_cases hc : c.toNat < 128
  · rw [if_pos hc] at h
    cases h
    have hb : (UInt8.ofNat c.toNat).toNat = c.toNat := by
      rw [UInt8.toNat_ofNat']
      omega
    rw [decodeByte, hb, if_pos hc, Char.ofNat_toNat]
  · rw [if_neg hc] at h
    obtain ⟨i, hi, rfl⟩ := Option.map_eq_some_iff.1 h
    obtain ⟨hlt, hget, -⟩ := List.findIdx?_eq_some_iff_getElem.1 hi
    have hentry : page.upper[i]? = some c.toNat := by
      rw [List.getElem?_eq_getElem hlt]
      exact congrArg some (by simpa using hget)
    have hb : (UInt8.ofNat (128 + i)).toNat = 128 + i := by
      rw [UInt8.toNat_ofNat']
      omega
    rw [decodeByte, hb, if_neg (by omega), Nat.add_sub_cancel_left, hentry]
    split
    · contradiction
    · rename_i hzero
      exact absurd (Option.some.inj hzero) (by omega)
    · rename_i n hn
      cases hn
      exact congrArg some (Char.ofNat_toNat c)

/-- Characters are read back from their bytes. -/
theorem decode_of_encode (hpage : page.upper.length ≤ 128) {cs : List Char} {data : Bytes}
    (h : page.encode cs = some data) : page.decode data = some cs := by
  induction cs generalizing data with
  | nil =>
    cases h
    rfl
  | cons c cs ih =>
    rw [encode, List.mapM_cons] at h
    obtain ⟨b, hb, h⟩ := Option.bind_eq_some_iff.1 h
    obtain ⟨rest, hrest, h⟩ := Option.bind_eq_some_iff.1 h
    cases h
    have htail : rest.mapM page.decodeByte = some cs := ih hrest
    rw [decode, List.mapM_cons, decodeByte_of_encodeChar hpage hb, htail]
    rfl

/-- On a page without repetitions, a byte is written again by its character. -/
theorem encodeChar_of_decodeByte (hdistinct : page.upper.Nodup)
    (hpage : ∀ n ∈ page.upper, 128 ≤ n ∧ n < 0xD800) {b : UInt8} {c : Char}
    (h : page.decodeByte b = some c) : page.encodeChar c = some b := by
  have hb : b.toNat < 256 := b.toNat_lt
  rw [decodeByte] at h
  by_cases hlow : b.toNat < 128
  · rw [if_pos hlow] at h
    cases h
    have hc : (Char.ofNat b.toNat).toNat = b.toNat := Utf16.char_toNat_ofNat (.inl (by omega))
    rw [encodeChar, hc, if_pos hlow, UInt8.ofNat_toNat]
  · rw [if_neg hlow] at h
    cases hentry : page.upper[b.toNat - 128]? with
    | none => simp [hentry] at h
    | some n =>
      obtain ⟨hlt, hget⟩ := List.getElem?_eq_some_iff.1 hentry
      obtain ⟨hn, hplane⟩ := hpage n (List.mem_of_getElem? hentry)
      have hc : (Char.ofNat n).toNat = n := Utf16.char_toNat_ofNat (.inl hplane)
      obtain rfl : Char.ofNat n = c := by
        simpa [hentry, show n ≠ 0 by omega] using h
      have hfind : page.upper.findIdx? (· = n) = some (b.toNat - 128) := by
        rw [List.findIdx?_eq_some_iff_getElem]
        refine ⟨hlt, by simpa using hget, fun j hj => ?_⟩
        have hlt' : j < page.upper.length := Nat.lt_trans hj hlt
        have hne : page.upper[j] ≠ n := fun heq =>
          Nat.ne_of_lt hj (hdistinct.getElem_inj_iff.1 (heq.trans hget.symm))
        simpa using hne
      have hindex : 128 + (b.toNat - 128) = b.toNat := Nat.add_sub_cancel' (Nat.not_lt.1 hlow)
      rw [encodeChar, hc, if_neg (Nat.not_lt.2 hn), hfind, Option.map_some, hindex,
        UInt8.ofNat_toNat]

/-- On a page without repetitions, bytes are written again by their characters. -/
theorem encode_of_decode (hdistinct : page.upper.Nodup)
    (hpage : ∀ n ∈ page.upper, 128 ≤ n ∧ n < 0xD800) {data : Bytes} {cs : List Char}
    (h : page.decode data = some cs) : page.encode cs = some data := by
  induction data generalizing cs with
  | nil =>
    cases h
    rfl
  | cons b data ih =>
    rw [decode, List.mapM_cons] at h
    obtain ⟨c, hc, h⟩ := Option.bind_eq_some_iff.1 h
    obtain ⟨rest, hrest, h⟩ := Option.bind_eq_some_iff.1 h
    cases h
    have htail : rest.mapM page.encodeChar = some data := ih hrest
    rw [encode, List.mapM_cons, encodeChar_of_decodeByte hdistinct hpage hc, htail]
    rfl

end CodePage

namespace Codec

variable [Codecs]

/-- Whether a codec decodes what it encoded. -/
def DecodesEncoded (c : Codec) : Prop := ∀ s raw, c.encode s = .ok raw → c.decode raw = .ok s

/-- Whether a codec encodes what it decoded. -/
def EncodesDecoded (c : Codec) : Prop := ∀ data s, c.decode data = .ok s → c.encode s = .ok data

variable {c : Codec} {page : CodePage}

theorem encode_of_page (hc : c.page? = some page) (s : String) :
    c.encode s = (page.encode s.toList).elim (.error .unrepresentable) .ok := by
  unfold encode
  rw [hc]
  cases hdata : page.encode s.toList <;> simp [hdata]

theorem decode_of_page (hc : c.page? = some page) (data : Bytes) :
    c.decode data = (page.decode data).elim (.error .invalidSequence) (.ok ∘ String.ofList) := by
  unfold decode
  rw [hc]
  cases hcs : page.decode data <;> simp [hcs]

/-- A codec with a code page decodes what it encoded. -/
theorem decodesEncoded_of_page (hc : c.page? = some page) (hpage : page.upper.length ≤ 128) :
    c.DecodesEncoded := by
  intro s raw h
  rw [encode_of_page hc] at h
  rw [decode_of_page hc]
  cases hdata : page.encode s.toList with
  | none => simp [hdata] at h
  | some data =>
    rw [hdata] at h
    cases h
    simp [CodePage.decode_of_encode hpage hdata]

/-- A codec with a code page that lists no character twice encodes what it decoded. -/
theorem encodesDecoded_of_page (hc : c.page? = some page) (hdistinct : page.upper.Nodup)
    (hpage : ∀ n ∈ page.upper, 128 ≤ n ∧ n < 0xD800) : c.EncodesDecoded := by
  intro data s h
  rw [decode_of_page hc] at h
  rw [encode_of_page hc]
  cases hcs : page.decode data with
  | none => simp [hcs] at h
  | some cs =>
    rw [hcs] at h
    cases h
    simp [CodePage.encode_of_decode hdistinct hpage hcs]

theorem decodesEncoded_windows1252 : windows1252.DecodesEncoded :=
  decodesEncoded_of_page rfl (by decide +kernel)

theorem encodesDecoded_windows1252 : windows1252.EncodesDecoded :=
  encodesDecoded_of_page rfl (by decide +kernel) (by decide +kernel)

end Codec

end EventTrace
