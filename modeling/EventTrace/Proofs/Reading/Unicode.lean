import EventTrace.Proofs.Text.Surrogates
import EventTrace.Reading.Reader

/-!
# Texts in UTF-16

Texts and the bytes that are UTF-16 correspond one to one, and a field of such a string holds the text
that stands in its value up to the first NUL (`Utf16.decode_bijective`).
-/

namespace EventTrace.Utf16

/-! ## Texts before a NUL -/

/-- Whether a text is what some bytes open with: its characters are not NUL, and its bytes are all those
before the first NUL or, where there is none, all whole units. -/
structure Opens (s : String) (raw : Bytes) : Prop where
  free : ∀ c ∈ s.toList, c.toNat ≠ 0
  upToNul : ∀ n, IsLeast {i | NulAt raw i} n → encode s = raw.take n
  upToEnd : (∀ i, ¬NulAt raw i) → encode s = raw.take (raw.length - raw.length % 2)

/-- Cutting bytes off leaves the terminators that end before the cut. -/
theorem nulAt_take_iff {raw : Bytes} {n i : Nat} :
    NulAt (raw.take n) i ↔ NulAt raw i ∧ i + 1 < n := by
  have htake : ∀ k, (raw.take n)[k]? = some 0 ↔ raw[k]? = some 0 ∧ k < n := by
    intro k
    rw [List.getElem?_take]
    split <;> simp_all
  rw [NulAt, NulAt, htake, htake]
  constructor
  · rintro ⟨heven, ⟨hlow, -⟩, hhigh, hlt⟩
    exact ⟨⟨heven, hlow, hhigh⟩, hlt⟩
  · rintro ⟨⟨heven, hlow, hhigh⟩, hlt⟩
    exact ⟨heven, ⟨hlow, by omega⟩, hhigh, hlt⟩

/-- A character that is NUL is a NUL among the bytes of its text. -/
theorem exists_nulAt_encode {s : String} {c : Char} (hc : c ∈ s.toList) (hzero : c.toNat = 0) :
    ∃ i, NulAt (encode s) i := by
  obtain ⟨before, after, hs⟩ := List.append_of_mem hc
  have hunits : charUnits c = [0] := by
    rw [charUnits, hzero]
    rfl
  have hbytes : encode s = encodeChars before ++ 0 :: 0 :: encodeChars after := by
    simp only [encode, hs, encodeChars, List.flatMap_append, List.flatMap_cons, hunits]
    rfl
  have heven : (encodeChars before).length % 2 = 0 := by
    rw [encodeChars, length_flatMap_unitBytes]
    exact Nat.mul_mod_right 2 _
  refine ⟨(encodeChars before).length, heven, ?_, ?_⟩
  · rw [hbytes, List.getElem?_append_right (Nat.le_refl _), Nat.sub_self]
    rfl
  · rw [hbytes, List.getElem?_append_right (Nat.le_add_right _ 1), Nat.add_sub_cancel_left]
    rfl

variable [Codecs] {settings : Settings} {spec : FieldSpec} {name : String} {offset : Nat}
  {raw : Bytes} {v : FieldValue}

omit [Codecs] in
/-- A text that is decoded opens its bytes, up to the first terminator. -/
theorem opens_of_decodeUnicode (h : decodeUnicode name offset raw = .ok v) :
    ∃ s, v = .unicodeString s ∧ Opens s raw := by
  rw [decodeUnicode] at h
  cases hs : decode (raw.take ((unitNul? raw).getD (raw.length - raw.length % 2))) with
  | error f => simp [hs] at h
  | ok s =>
    have hencode := encode_of_decode hs
    simp only [hs, Except.ok.injEq] at h
    refine ⟨s, h.symm, ?_, ?_, ?_⟩
    · intro c hc hzero
      obtain ⟨i, hi⟩ := exists_nulAt_encode hc hzero
      rw [hencode] at hi
      obtain ⟨hi, hlt⟩ := nulAt_take_iff.1 hi
      cases hnul : unitNul? raw with
      | none => exact unitNul?_eq_none_iff.1 hnul i hi
      | some n =>
        -- the NUL would stand before the first one
        have hle : n ≤ i := (unitNul?_eq_some_iff.1 hnul).2 hi
        rw [hnul, Option.getD_some] at hlt
        omega
    · intro n hn
      rw [hencode, unitNul?_eq_some_iff.2 hn, Option.getD_some]
    · intro hnone
      rw [hencode, unitNul?_eq_none_iff.2 hnone, Option.getD_none]

theorem opens_of_decodeValue (htype : spec.type = .unicodeString)
    (h : decodeValue settings spec offset raw = .ok v) : ∃ s, v = .unicodeString s ∧ Opens s raw := by
  rw [decodeValue, htype] at h
  exact opens_of_decodeUnicode h

/-- What a field is parsed as was decoded from the bytes that it is parsed with. -/
theorem decodeValue_of_parsed {p : FieldReader} {f : ParsedField} (h : p.parsed name = .ok f) :
    decodeValue p.settings f.spec f.offset f.raw = .ok f.value := by
  rw [FieldReader.parsed] at h
  cases hl : p.locate name with
  | error e => simp [hl] at h
  | ok l =>
    simp only [hl, FieldReader.parseLocated] at h
    cases hv : l.decode p.settings p.data with
    | error e => simp [hv] at h
    | ok v =>
      simp only [hv, Except.ok.injEq] at h
      rw [← h]
      exact hv

/-! ## The correspondence -/

/-- Texts and the bytes that are UTF-16 correspond one to one. The bytes of a text are those of its
characters: of one in the first plane two, the low byte first, and beyond it two such units. Bytes are
a text if they are an even number in whose units every surrogate is half of a pair; a text is read back
from its bytes, and the bytes that a text was read from are its bytes. The short way for units that are all ASCII reads what the long one
does, and the first NUL is the least even place with two zero bytes. So a string of a field has no NUL,
and its bytes are those of the field's value before the first NUL, up to the last whole unit where there
is none. -/
theorem decode_bijective :
    ((∀ s t, encode (s ++ t) = encode s ++ encode t) ∧
      (∀ c : Char, c.toNat < 0x10000 →
        encode (.singleton c) = [UInt8.ofNat (c.toNat % 256), UInt8.ofNat (c.toNat / 256)]) ∧
      ∀ (c : Char) n, c.toNat = 0x10000 + n → encode (.singleton c) =
        [UInt8.ofNat (n / 1024 % 256), UInt8.ofNat (0xD8 + n / 1024 / 256),
          UInt8.ofNat (n % 256), UInt8.ofNat (0xDC + n % 1024 / 256)]) ∧
    (∀ s, decode (encode s) = .ok s) ∧
    (∀ data, ((∃ s, decode data = .ok s) ↔ data.length % 2 = 0 ∧ Paired (units data)) ∧
      ∀ s, decode data = .ok s → encode s = data) ∧
    (∀ us cs, asciiChars? us = some cs → decodeUnits us = .ok cs) ∧
    (∀ data n, unitNul? data = some n ↔ IsLeast {i | NulAt data i} n) ∧
    (∀ settings spec offset raw v, spec.type = .unicodeString →
      decodeValue settings spec offset raw = .ok v → ∃ s, v = .unicodeString s ∧ Opens s raw) ∧
    ∀ (p : FieldReader) name f, p.parsed name = .ok f → f.spec.type = .unicodeString →
      ∃ s, f.value = .unicodeString s ∧ Opens s f.raw := by
  refine ⟨⟨encode_append, fun _ => encode_singleton_of_lt, fun _ _ => encode_singleton_of_le⟩,
    decode_encode, fun data => ⟨exists_decode_iff, fun s hs => encode_of_decode hs⟩, ?_, ?_, ?_, ?_⟩
  · intro us cs h
    exact decodeUnits_of_asciiChars? h
  · intro data n
    exact unitNul?_eq_some_iff
  · intro settings spec offset raw v htype h
    exact opens_of_decodeValue htype h
  · intro p name f h htype
    exact opens_of_decodeValue htype (decodeValue_of_parsed h)

/-- A reader of a text that takes all of the data: a surrogate pair, a NUL and an odd byte. -/
def clef : FieldReader where
  record := .new (.new .nil 1 0) [0x34, 0xD8, 0x1E, 0xDD, 0, 0, 0x61]
  layout := ⟨⟨1, 0⟩, none, [⟨"Text", .unicodeString, .remainder⟩], rfl⟩

/-- A letter, a clef beyond the first plane, plain letters, and a text before its terminator. -/
theorem decode_bijective_clef :
    decode [0x41, 0] = .ok "A" ∧ encode "A" = [0x41, 0] ∧
    (∃ s, decode [0x34, 0xD8, 0x1E, 0xDD] = .ok s ∧ encode s = [0x34, 0xD8, 0x1E, 0xDD]) ∧
    asciiChars? [0x41, 0x62] = some ['A', 'b'] ∧ decodeUnits [0x41, 0x62] = .ok ['A', 'b'] ∧
    (∃ s, decodeValue {} ⟨"Text", .unicodeString, .remainder⟩ 0 [0x61, 0, 0x62] =
      .ok (.unicodeString s) ∧ Opens s [0x61, 0, 0x62]) ∧
    ∃ f s, clef.parsed "Text" = .ok f ∧ f.value = .unicodeString s ∧ Opens s f.raw := by
  obtain ⟨⟨-, hplane, -⟩, -, hdecode, hshort, -, hvalue, hparsed⟩ := decode_bijective
  refine ⟨rfl, hplane 'A' (by decide), ⟨_, rfl, (hdecode _).2 _ rfl⟩, rfl, hshort _ _ rfl, ?_, ?_⟩
  · obtain ⟨s, hs, hopens⟩ := hvalue {} ⟨"Text", .unicodeString, .remainder⟩ 0 [0x61, 0, 0x62] _ rfl rfl
    exact ⟨s, congrArg Except.ok hs, hopens⟩
  · obtain ⟨s, hs, hopens⟩ := hparsed clef "Text" _ rfl rfl
    exact ⟨_, s, rfl, hs, hopens⟩

end EventTrace.Utf16
