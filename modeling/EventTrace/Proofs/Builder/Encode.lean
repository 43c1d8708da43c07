import EventTrace.Proofs.Reading.Locate
import EventTrace.Proofs.Text.Codec
import EventTrace.Proofs.Text.Utf16

/-!
# Encoded fields as parts

What a builder writes for a field is a part of the grammar of user data: the bytes of the value under
the length rule of the field (`FieldSpec.part`). The part conforms to the rule behind the parts of the
fields before it (`RecordBuilder.Encodes.conforms`), and its value decodes to the value that was added,
up to the zeros that fill a fixed width (`RecordBuilder.Encodes.decode_eq`).
-/

namespace EventTrace

/-- The part that the bytes of a value make up under the rule of a field. -/
def FieldSpec.part (spec : FieldSpec) (raw : Bytes) : Part :=
  match spec.rule with
  | .fixed width => ⟨spec, [], raw ++ List.replicate (width - raw.length) 0, []⟩
  | .nullTerminated => ⟨spec, [], raw, spec.type.zeros⟩
  | .lengthField _ | .remainder => ⟨spec, [], raw, []⟩
  | .counted => ⟨spec, Bytes.ofNatLE 2 raw.length, raw, []⟩

@[simp] theorem spec_part (spec : FieldSpec) (raw : Bytes) : (spec.part raw).spec = spec := by
  unfold FieldSpec.part
  cases spec.rule <;> rfl

/-- How many zeros fill the bytes of a value up to the width of its field. -/
def FieldSpec.filling (spec : FieldSpec) (raw : Bytes) : Nat :=
  match spec.rule with
  | .fixed width => width - raw.length
  | _ => 0

/-- The value that a field holds: bytes have the zeros behind them that fill its width. -/
def FieldSpec.filled (spec : FieldSpec) : FieldValue → FieldValue
  | .bytes data => .bytes (data ++ List.replicate (spec.filling data) 0)
  | v => v

variable [Codecs]

/-! ## Bytes of values -/

/-- The bytes of a value are whole elements of its type. -/
theorem FieldValue.dvd_length_of_encode {codec : Codec} {v : FieldValue} {raw : Bytes}
    (h : v.encode codec = .ok raw) : v.type.elementWidth ∣ raw.length := by
  cases v with
  | unicodeString s =>
    cases h
    exact Utf16.two_dvd_length_encode s
  | scalar s => exact Nat.one_dvd _
  | ansiString s => exact Nat.one_dvd _
  | bytes data => exact Nat.one_dvd _

/-- Text in single bytes is read back up to the zeros behind it. -/
theorem decodeAnsi_append_replicate {codec : Codec} (hcodec : codec.DecodesEncoded) {s : String}
    {raw : Bytes} (hraw : codec.encode s = .ok raw) (hfree : FieldType.ansiString.NulFree raw)
    (name : String) (offset count : Nat) :
    decodeAnsi codec name offset (raw ++ List.replicate count 0) = .ok (.ansiString s) := by
  have hzero := FieldType.nulFree_ansiString_iff.1 hfree
  have hall : ∀ b ∈ raw, decide (b ≠ 0) = true := fun b hb =>
    decide_eq_true fun h => hzero (h ▸ hb)
  have htake : (raw ++ List.replicate count 0).takeWhile (fun b => decide (b ≠ 0)) = raw := by
    rw [List.takeWhile_append_of_pos hall]
    simp
  rw [decodeAnsi, htake, hcodec s raw hraw]

omit [Codecs] in
/-- Text in UTF-16 is read back up to the zero units behind it. -/
theorem decodeUnicode_append_replicate {s : String}
    (hfree : FieldType.unicodeString.NulFree (Utf16.encode s)) {count : Nat} (hcount : 2 ∣ count)
    (name : String) (offset : Nat) :
    decodeUnicode name offset (Utf16.encode s ++ List.replicate count 0) = .ok (.unicodeString s) := by
  have heven := Utf16.two_dvd_length_encode s
  have hstop : (Utf16.unitNul? (Utf16.encode s ++ List.replicate count 0)).getD
      ((Utf16.encode s ++ List.replicate count 0).length -
        (Utf16.encode s ++ List.replicate count 0).length % 2) = (Utf16.encode s).length := by
    obtain ⟨units, rfl⟩ := hcount
    cases units with
    | zero =>
      have hnone := (FieldType.nul?_eq_none_iff _).2 hfree
      rw [FieldType.nul?] at hnone
      simp only [Nat.mul_zero, List.replicate_zero, List.append_nil, hnone, Option.getD_none]
      omega
    | succ units =>
      have hzeros : List.replicate (2 * (units + 1)) (0 : UInt8) =
          FieldType.unicodeString.zeros ++ List.replicate (2 * units) 0 := by
        rw [FieldType.zeros, List.replicate_append_replicate, Nat.mul_add, Nat.add_comm]
        rfl
      have hnul := FieldType.unicodeString.nul?_append_zeros heven hfree
        (List.replicate (2 * units) 0)
      rw [FieldType.nul?] at hnul
      rw [hzeros, hnul, Option.getD_some]
  simp only [decodeUnicode, hstop, List.take_left, Utf16.decode_encode]

/-! ## Encoded parts -/

namespace RecordBuilder

variable (b : RecordBuilder)

/-- Whether a part is what a builder writes for a field: the bytes of its value under its rule. -/
structure Encodes (mode : PackMode) (q : Part) (v : FieldValue) (raw : Bytes) : Prop where
  value : b.value? q.spec.name = some v
  type : v.type = q.spec.type
  encode : v.encode b.codec = .ok raw
  free : hasNul q.spec.type raw = false
  fits : b.applyRule mode q.spec raw = .ok q.bytes
  part : q.spec.part raw = q

variable {b} {mode : PackMode}

omit [Codecs] in
/-- The bytes that a rule leaves in a record are those of the part with the field's own bytes. -/
theorem bytes_part_of_applyRule {spec : FieldSpec} {raw data : Bytes}
    (h : b.applyRule mode spec raw = .ok data) : (spec.part raw).bytes = data := by
  unfold applyRule at h
  unfold FieldSpec.part
  cases hrule : spec.rule with
  | fixed width =>
    simp only [hrule] at h ⊢
    split at h
    · cases h
      simp [Part.bytes]
    · cases h
  | nullTerminated =>
    simp only [hrule] at h ⊢
    cases h
    rfl
  | lengthField reference =>
    simp only [hrule] at h ⊢
    split at h
    · cases h
      simp [Part.bytes]
    · cases h
  | remainder =>
    simp only [hrule] at h ⊢
    cases h
    simp [Part.bytes]
  | counted =>
    simp only [hrule] at h ⊢
    split at h
    · cases h
      simp [Part.bytes]
    · cases h

/-- A field is encoded if its value has bytes that hold no terminator and meet its rule. -/
theorem encodeField_eq_ok_iff {spec : FieldSpec} {v : FieldValue} {data : Bytes} :
    b.encodeField mode spec v = .ok data ↔
      ∃ raw, v.encode b.codec = .ok raw ∧ hasNul spec.type raw = false ∧
        b.applyRule mode spec raw = .ok data := by
  rw [encodeField, encodeValue]
  cases v.encode b.codec with
  | error f => simp
  | ok raw =>
    cases hnul : hasNul spec.type raw with
    | true => simp [hnul]
    | false => cases hfits : b.applyRule mode spec raw <;> simp [hnul, hfits]

/-- Fields are encoded if the first of them is and, behind it, the others are. -/
theorem encodeFields_cons_eq_ok_iff {spec : FieldSpec} {later : List FieldSpec} {v : FieldValue}
    {data : Bytes} (hv : b.value? spec.name = some v) :
    b.encodeFields mode (spec :: later) = .ok data ↔
      ∃ head tail, b.encodeField mode spec v = .ok head ∧ b.encodeFields mode later = .ok tail ∧
        data = head ++ tail := by
  simp only [encodeFields, hv]
  cases b.encodeField mode spec v with
  | error e => simp
  | ok head => cases b.encodeFields mode later <;> simp [Except.map, eq_comm]

/-- The bytes of a field are those of the part that its value makes up. -/
theorem exists_encodes {spec : FieldSpec} {v : FieldValue} {data : Bytes}
    (hvalue : b.value? spec.name = some v) (htype : v.type = spec.type)
    (h : b.encodeField mode spec v = .ok data) :
    ∃ q raw, q.spec = spec ∧ q.bytes = data ∧ b.Encodes mode q v raw := by
  obtain ⟨raw, hraw, hfree, hfits⟩ := encodeField_eq_ok_iff.1 h
  have hbytes := bytes_part_of_applyRule hfits
  refine ⟨spec.part raw, raw, spec_part spec raw, hbytes, ?_⟩
  exact ⟨by rwa [spec_part], by rwa [spec_part], hraw, by rwa [spec_part],
    by rw [spec_part, hbytes, hfits], by rw [spec_part]⟩

namespace Encodes

variable {q : Part} {v : FieldValue} {raw : Bytes} {earlier : List FieldSpec}

theorem dvd_length (h : b.Encodes mode q v raw) : q.spec.type.elementWidth ∣ raw.length :=
  h.type ▸ FieldValue.dvd_length_of_encode h.encode

/-- The part of a scalar is the scalar's bytes. -/
theorem value_eq_toBytes {s : Scalar} (h : b.Encodes mode q (.scalar s) raw)
    (hs : q.spec.SuitsAfter earlier) : q.value = s.toBytes := by
  have hrule : q.spec.rule = .fixed s.type.width := by
    rw [FieldSpec.SuitsAfter, ← h.type] at hs
    exact hs
  have hraw : s.toBytes = raw := Except.ok.inj h.encode
  have hpart := h.part
  rw [FieldSpec.part, hrule, ← hraw] at hpart
  simp only [Scalar.length_toBytes, Nat.sub_self, List.replicate_zero, List.append_nil] at hpart
  rw [← hpart]

/-- The part of a value spells the integer that the value is, if it is one. -/
theorem integer?_part (h : b.Encodes mode q v raw) (hs : q.spec.SuitsAfter earlier) :
    q.integer? = v.integer? := by
  rw [Part.integer?, ← h.type]
  cases v with
  | scalar s =>
    rw [h.value_eq_toBytes hs]
    simp only [FieldValue.type, Scalar.ofBytes?_toBytes, Option.bind_some]
  | ansiString s | unicodeString s | bytes data => rfl

/-- The parts of values spell the integers that the values are. -/
theorem holds_iff {parts : List Part} {reference : String} {n : Int}
    (hparts : ∀ q ∈ parts, ∃ earlier v raw, q.spec.SuitsAfter earlier ∧ b.Encodes mode q v raw)
    (hreference : ∃ g ∈ parts.map Part.spec, g.name = reference) :
    Part.Holds parts reference n ↔ (b.value? reference).bind FieldValue.integer? = some n := by
  constructor
  · rintro ⟨q, hq, rfl, hn⟩
    obtain ⟨earlier, v, raw, hs, h⟩ := hparts q hq
    rw [h.value, Option.bind_some, ← h.integer?_part hs, hn]
  · intro hn
    obtain ⟨g, hg, rfl⟩ := hreference
    obtain ⟨q, hq, rfl⟩ := List.mem_map.1 hg
    obtain ⟨earlier, v, raw, hs, h⟩ := hparts q hq
    rw [h.value, Option.bind_some, ← h.integer?_part hs] at hn
    exact ⟨q, hq, rfl, hn⟩

/-- In a complete record the part of a field conforms to its rule. -/
theorem conforms {strict : Bool} {before : List Part} {rest : Bytes}
    (h : b.Encodes .complete q v raw)
    (hbefore : ∀ q' ∈ before, ∃ earlier v' raw', q'.spec.SuitsAfter earlier ∧
      b.Encodes .complete q' v' raw')
    (hs : q.spec.SuitsAfter (before.map Part.spec)) (hrest : q.spec.rule = .remainder → rest = [])
    (hcount : ∀ reference, q.spec.rule = .lengthField reference → raw.length < lengthBound) :
    q.Conforms strict before rest := by
  have hdvd := h.dvd_length
  have hpos := q.spec.type.elementWidth_pos
  have hpart := h.part
  have hfits := h.fits
  rw [FieldSpec.part] at hpart
  rw [applyRule] at hfits
  rw [Part.Conforms]
  cases hrule : q.spec.rule with
  | fixed width =>
    simp only [hrule] at hpart hfits ⊢
    split at hfits
    · rename_i hle
      rw [← hpart]
      refine ⟨rfl, ?_, rfl⟩
      rw [List.length_append, List.length_replicate, Nat.add_sub_cancel' hle]
    · cases hfits
  | nullTerminated =>
    simp only [hrule] at hpart ⊢
    have hstring : q.spec.type.isString = true := by
      rw [FieldSpec.SuitsAfter, hrule] at hs
      cases hn : q.spec.type.naturalWidth? with
      | none => simpa [hn] using hs
      | some natural => simp [hn] at hs
    have hfree := q.spec.type.nulFree_of_hasNul hstring h.free
    rw [← hpart]
    exact ⟨rfl, .inl ⟨hdvd, hfree, rfl⟩⟩
  | lengthField reference =>
    simp only [hrule] at hpart hfits ⊢
    split at hfits
    · rename_i hheld
      have hheld : (b.value? reference).bind FieldValue.integer? =
          some (Int.ofNat (raw.length / q.spec.type.elementWidth)) := by
        simpa using hheld
      have hlength : raw.length / q.spec.type.elementWidth * q.spec.type.elementWidth = raw.length :=
        Nat.div_mul_cancel hdvd
      -- the count was checked against a value of the builder, which an earlier part spells
      have hholds := (holds_iff hbefore (hs.exists_reference hrule)).2 hheld
      rw [← hpart]
      exact ⟨rfl, rfl, _, hholds, Int.natCast_nonneg _, hlength.symm ▸ hcount reference hrule,
        hlength.symm⟩
    · cases hfits
  | remainder =>
    simp only [hrule] at hpart ⊢
    rw [← hpart]
    exact ⟨rfl, ⟨hdvd, hpos⟩, hrest hrule⟩
  | counted =>
    simp only [hrule] at hpart hfits ⊢
    split at hfits
    · rename_i hlt
      rw [← hpart]
      refine ⟨?_, ?_, hdvd, hpos⟩
      · rw [List.append_nil]
      · rwa [List.append_nil]
    · cases hfits

/-- The value in a record is the encoded one, behind it the zeros that fill a fixed width. -/
theorem value_eq (h : b.Encodes mode q v raw) :
    q.value = raw ++ List.replicate (q.spec.filling raw) 0 := by
  have hpart := h.part
  rw [FieldSpec.part] at hpart
  rw [FieldSpec.filling]
  cases hrule : q.spec.rule <;> simp only [hrule] at hpart <;> rw [← hpart] <;> simp

/-- A fixed width is filled with whole units of text. -/
theorem dvd_filling (h : b.Encodes mode q v raw) (hs : q.spec.SuitsAfter earlier)
    (htype : q.spec.type.naturalWidth? = none) :
    q.spec.type.elementWidth ∣ q.spec.filling raw := by
  rw [FieldSpec.SuitsAfter, htype] at hs
  rw [FieldSpec.filling]
  cases hrule : q.spec.rule with
  | fixed width =>
    simp only [hrule] at hs ⊢
    exact Nat.dvd_sub hs h.dvd_length
  | nullTerminated | lengthField reference | remainder | counted => exact Nat.dvd_zero _

/-- What a part holds is read back, with zeros behind bytes in a wider field. -/
theorem decode_eq (h : b.Encodes mode q v raw) (hcodec : b.codec.DecodesEncoded)
    (hs : q.spec.SuitsAfter earlier) {settings : Settings} (hsettings : settings.codec = b.codec)
    (offset : Nat) :
    decodeValue settings q.spec offset q.value = .ok (q.spec.filled v) := by
  have htype := h.type
  cases v with
  | scalar s =>
    obtain ⟨s', hs', -, hread⟩ := Scalar.read_of_length s.length_toBytes q.spec.name
    rw [Scalar.ofBytes?_toBytes, Option.some.injEq] at hs'
    subst hs'
    rw [decodeValue, ← htype, h.value_eq_toBytes hs]
    simp only [FieldValue.type, hread]
    rfl
  | ansiString text =>
    have hfree := q.spec.type.nulFree_of_hasNul (htype ▸ rfl) h.free
    rw [← htype] at hfree
    rw [decodeValue, ← htype, h.value_eq]
    simp only [FieldValue.type, hsettings]
    exact decodeAnsi_append_replicate hcodec h.encode hfree _ _ _
  | unicodeString text =>
    have hfree := q.spec.type.nulFree_of_hasNul (htype ▸ rfl) h.free
    have hdvd := h.dvd_filling hs (htype ▸ rfl)
    have hraw : Utf16.encode text = raw := Except.ok.inj h.encode
    rw [← htype] at hfree hdvd
    rw [decodeValue, ← htype, h.value_eq, ← hraw]
    simp only [FieldValue.type]
    exact decodeUnicode_append_replicate (hraw ▸ hfree) (hraw ▸ hdvd) _ _
  | bytes data =>
    have hraw : data = raw := Except.ok.inj h.encode
    rw [decodeValue, ← htype, h.value_eq, ← hraw]
    rfl

end Encodes

end RecordBuilder

end EventTrace
