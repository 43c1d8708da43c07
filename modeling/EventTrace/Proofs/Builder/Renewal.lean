import EventTrace.Proofs.Builder.Additions
import EventTrace.Proofs.Builder.RoundTrip
import EventTrace.Proofs.Reading.Outcome

/-!
# Packing what was read

The values that are read from a record, wherever it comes from, can be added to a builder that is bound
to the same layout. They are packed unless a string ends at a NUL within a length that another field
holds, and then they are read again as they are (`RecordBuilder.pack_read`). What is packed is
normal: nothing of the record stays that its values do not say.
-/

namespace EventTrace

/-! ## Values that were read -/

section Values

variable [Codecs] {settings : Settings} {strict : Bool} {earlier : List FieldSpec}
  {before : List Part} {rest : Bytes} {part : Part} {v : FieldValue} {offset : Nat}

/-- What a value that was read from some bytes of a field is encoded as: the same bytes, or, for a
string that has a NUL in them, fewer. -/
structure FieldSpec.Restores (spec : FieldSpec) (codec : Codec) (value : Bytes) (v : FieldValue)
    (raw : Bytes) : Prop where
  type : v.type = spec.type
  encode : v.encode codec = .ok raw
  free : RecordBuilder.hasNul spec.type raw = false
  length_le : raw.length ≤ value.length
  length_eq_iff : raw.length = value.length ↔
    (spec.type.isString = true → spec.type.NulFree value)

omit [Codecs] in
/-- The value of a part is whole elements. -/
theorem Part.Conforms.dvd_length (hp : part.Conforms strict before rest)
    (hs : part.spec.SuitsAfter earlier) : part.spec.type.elementWidth ∣ part.value.length := by
  rw [Part.Conforms] at hp
  rw [FieldSpec.SuitsAfter] at hs
  cases hrule : part.spec.rule with
  | fixed width =>
    simp only [hrule] at hp hs
    rw [hp.2.1]
    cases htype : part.spec.type with
    | scalar t => exact Nat.one_dvd _
    | ansiString | unicodeString | rawBytes => simpa [htype, FieldType.naturalWidth?] using hs
  | nullTerminated =>
    simp only [hrule] at hp
    rcases hp.2 with h | ⟨-, h⟩
    · exact h.1
    · exact h.1.1
  | lengthField reference =>
    simp only [hrule] at hp
    obtain ⟨-, -, count, -, -, -, hlength⟩ := hp
    exact hlength ▸ Nat.dvd_mul_left _ _
  | remainder =>
    simp only [hrule] at hp
    exact hp.2.1.1
  | counted =>
    simp only [hrule] at hp
    exact hp.2.2.1

/-- A value that was read from a part has the declared type. -/
theorem Part.Conforms.type_eq (hp : part.Conforms strict before rest)
    (hs : part.spec.SuitsAfter earlier)
    (h : decodeValue settings part.spec offset part.value = .ok v) : v.type = part.spec.type := by
  cases ht : part.spec.type with
  | scalar t =>
    obtain ⟨s, rfl, -, hdecode⟩ := Part.exists_scalar hp hs ht
    rw [hdecode] at h
    cases h
    rfl
  | ansiString =>
    simp only [decodeValue, ht, decodeAnsi] at h
    split at h <;> cases h
    rfl
  | unicodeString =>
    simp only [decodeValue, ht, decodeUnicode] at h
    split at h <;> cases h
    rfl
  | rawBytes =>
    simp only [decodeValue, ht] at h
    cases h
    rfl

/-- A value that was read from a part is the integer that the part spells, if it is one. -/
theorem Part.Conforms.integer?_eq (hp : part.Conforms strict before rest)
    (hs : part.spec.SuitsAfter earlier)
    (h : decodeValue settings part.spec offset part.value = .ok v) :
    part.integer? = v.integer? := by
  have htype := hp.type_eq hs h
  rw [Part.integer?, ← htype]
  cases v with
  | scalar s =>
    obtain ⟨s', -, hs', hdecode⟩ := Part.exists_scalar hp hs htype.symm
    rw [hdecode] at h
    cases h
    simp only [FieldValue.type, hs', Option.bind_some]
  | ansiString s | unicodeString s | bytes data => rfl

/-- Bytes that were read from a part of fixed width fill it. -/
theorem Part.Conforms.filled_eq (hp : part.Conforms strict before rest)
    (hs : part.spec.SuitsAfter earlier)
    (h : decodeValue settings part.spec offset part.value = .ok v) : part.spec.filled v = v := by
  have htype := hp.type_eq hs h
  cases v with
  | scalar s | ansiString s | unicodeString s => rfl
  | bytes data =>
    rw [decodeValue, ← htype] at h
    obtain rfl : part.value = data := by simpa [FieldValue.type] using h
    rw [Part.Conforms] at hp
    rw [FieldSpec.filled, FieldSpec.filling]
    cases hrule : part.spec.rule with
    | fixed width =>
      simp only [hrule] at hp
      simp [hp.2.1]
    | nullTerminated | lengthField reference | remainder | counted => simp

/-- The text of a string is what stands before its first NUL. -/
theorem restores_of_isString {spec : FieldSpec} {codec : Codec} {value : Bytes}
    (htype : v.type = spec.type) (hstring : spec.type.isString = true)
    (h : v.encode codec = .ok (spec.type.stem value)) :
    spec.Restores codec value v (spec.type.stem value) where
  type := htype
  encode := h
  free := spec.type.hasNul_of_nulFree (FieldType.nulFree_stem value)
  length_le := FieldType.length_stem_le value
  length_eq_iff := by
    rw [FieldType.length_stem_eq_iff]
    exact ⟨fun free _ => free, fun free => free hstring⟩

/-- A value that is no string is as long as the bytes that it was read from. -/
theorem restores_of_length_eq {spec : FieldSpec} {codec : Codec} {value raw : Bytes}
    (htype : v.type = spec.type) (hstring : spec.type.isString = false)
    (h : v.encode codec = .ok raw) (hlength : raw.length = value.length) :
    spec.Restores codec value v raw where
  type := htype
  encode := h
  free := by
    cases ht : spec.type with
    | scalar t => rfl
    | rawBytes => rfl
    | ansiString | unicodeString =>
      rw [ht] at hstring
      cases hstring
  length_le := Nat.le_of_eq hlength
  length_eq_iff := by simp [hlength, hstring]

/-- Where a codec encodes what it decoded, every value that was read can be encoded. -/
theorem exists_restores (hcodec : settings.codec.EncodesDecoded)
    (hp : part.Conforms strict before rest) (hs : part.spec.SuitsAfter earlier)
    (h : decodeValue settings part.spec offset part.value = .ok v) :
    ∃ raw, part.spec.Restores settings.codec part.value v raw := by
  cases ht : part.spec.type with
  | scalar t =>
    obtain ⟨s, rfl, -, hdecode⟩ := Part.exists_scalar hp hs ht
    rw [hdecode, Except.ok.injEq] at h
    subst h
    have hlength : s.toBytes.length = part.value.length := by
      rw [Scalar.length_toBytes, Part.length_of_scalar hp hs ht]
    exact ⟨_, restores_of_length_eq ht.symm (by rw [ht]; rfl) rfl hlength⟩
  | ansiString =>
    simp only [decodeValue, ht, decodeAnsi, ← FieldType.stem_ansiString] at h
    cases hdecode : settings.codec.decode (FieldType.ansiString.stem part.value) with
    | error f => simp [hdecode] at h
    | ok s =>
      simp only [hdecode, Except.ok.injEq] at h
      subst h
      have hencode := hcodec _ _ hdecode
      exact ⟨_, restores_of_isString ht.symm (by rw [ht]; rfl) (ht ▸ hencode)⟩
  | unicodeString =>
    have heven : part.value.length % 2 = 0 := by
      have hdvd := hp.dvd_length hs
      rw [ht] at hdvd
      exact Nat.mod_eq_zero_of_dvd hdvd
    simp only [decodeValue, ht, decodeUnicode, heven, Nat.sub_zero] at h
    cases hdecode : Utf16.decode (FieldType.unicodeString.stem part.value) with
    | error f => simp [← FieldType.stem_unicodeString, hdecode] at h
    | ok s =>
      simp only [← FieldType.stem_unicodeString, hdecode, Except.ok.injEq] at h
      subst h
      have hencode : (FieldValue.unicodeString s).encode settings.codec =
          .ok (FieldType.unicodeString.stem part.value) := by
        rw [FieldValue.encode, Utf16.encode_of_decode hdecode]
      exact ⟨_, restores_of_isString ht.symm (by rw [ht]; rfl) (ht ▸ hencode)⟩
  | rawBytes =>
    simp only [decodeValue, ht, Except.ok.injEq] at h
    subst h
    exact ⟨_, restores_of_length_eq ht.symm (by rw [ht]; rfl) rfl rfl⟩

end Values

namespace FieldReader

variable [Codecs] {p : FieldReader} {values : String → FieldValue} {parts before after : List Part}
  {part : Part} {rest : Bytes} {count : Nat}

/-- Whether some values, by the names of the fields, are what all fields of a record are read as. -/
def Holds (p : FieldReader) (values : String → FieldValue) : Prop :=
  ∀ spec ∈ p.layout.fields, p.read .any spec.name = .ok (.value (values spec.name))

/-- Whether no string of a record has a NUL character within a length that another field holds. -/
def LengthsNulFree (p : FieldReader) : Prop :=
  ∀ spec ∈ p.layout.fields, ∀ reference s, spec.rule = .lengthField reference →
    spec.type.isString = true → p.resolve spec.name = .ok s → spec.type.NulFree (s.value p.data)

/-- A record whose fields all hold values is made of parts. -/
theorem Holds.exists_reads (h : p.Holds values) :
    ∃ parts rest, p.Reads p.layout.fields.length parts rest := by
  refine exists_reads_of_located fun spec hspec => ?_
  have hread := h spec hspec
  rw [read_any] at hread
  cases hl : p.locate spec.name with
  | error e => simp [hl] at hread
  | ok l => exact ⟨l, rfl⟩

/-- Whether a part of the data, behind earlier ones, is what a field is read from. -/
structure IsReadFrom (p : FieldReader) (values : String → FieldValue) (before : List Part)
    (part : Part) (rest : Bytes) : Prop where
  conforms : part.Conforms p.settings.strict before rest
  suits : part.spec.SuitsAfter (before.map Part.spec)
  decode : decodeValue p.settings part.spec (bytesOf before).length part.value =
    .ok (values part.spec.name)
  resolve : ∃ s, p.resolve part.spec.name = .ok s ∧ s.value p.data = part.value

/-- Each part of such a record is read from the value that its field holds. -/
theorem Holds.isReadFrom (h : p.Holds values)
    (hreads : p.Reads p.layout.fields.length (before ++ part :: after) rest) :
    p.IsReadFrom values before part (bytesOf after ++ rest) where
  conforms := hreads.decomposes.conforms before part after rfl
  suits := p.layout.wellFormed.suits hreads.fields_split
  decode := by
    have hspec : part.spec ∈ p.layout.fields := by
      rw [hreads.fields_split]
      simp
    have hread := h part.spec hspec
    rw [hreads.read_any_eq] at hread
    cases hv : decodeValue p.settings part.spec (bytesOf before).length part.value with
    | error e => simp [hv, Except.map] at hread
    | ok v => simpa [hv, Except.map] using hread
  resolve := by
    refine ⟨part.segmentAt (bytesOf before).length, ?_,
      Part.value_segmentAt hreads.decomposes.split_eq⟩
    rw [FieldReader.resolve, hreads.locate_eq]
    rfl

/-- Where all fields are read, each is read from a part, and the integers before it are what the values
say. -/
theorem Holds.exists_part (h : p.Holds values) {spec : FieldSpec} (hspec : spec ∈ p.layout.fields) :
    ∃ before part rest, part.spec = spec ∧ p.IsReadFrom values before part rest ∧
      ∀ q ∈ before, q.spec ∈ p.layout.fields ∧ q.integer? = (values q.spec.name).integer? := by
  obtain ⟨parts, rest, hreads⟩ := h.exists_reads
  have hspecs := hreads.specs
  rw [List.take_length] at hspecs
  rw [← hspecs] at hspec
  obtain ⟨part, hpart, rfl⟩ := List.mem_map.1 hspec
  obtain ⟨before, after, rfl⟩ := List.append_of_mem hpart
  refine ⟨before, part, _, rfl, h.isReadFrom hreads, fun q hq => ⟨?_, ?_⟩⟩
  · rw [← hspecs]
    exact List.mem_map_of_mem (List.mem_append_left _ hq)
  · obtain ⟨front, between, rfl⟩ := List.append_of_mem hq
    rw [List.append_assoc, List.cons_append] at hreads
    have hfrom := h.isReadFrom hreads
    exact hfrom.conforms.integer?_eq hfrom.suits hfrom.decode

theorem Holds.type_eq (h : p.Holds values) {spec : FieldSpec} (hspec : spec ∈ p.layout.fields) :
    (values spec.name).type = spec.type := by
  obtain ⟨before, part, rest, rfl, hfrom, -⟩ := h.exists_part hspec
  exact hfrom.conforms.type_eq hfrom.suits hfrom.decode

/-- What was read fills its field. -/
theorem Holds.filled_eq (h : p.Holds values) {spec : FieldSpec} (hspec : spec ∈ p.layout.fields) :
    spec.filled (values spec.name) = values spec.name := by
  obtain ⟨before, part, rest, rfl, hfrom, -⟩ := h.exists_part hspec
  exact hfrom.conforms.filled_eq hfrom.suits hfrom.decode

end FieldReader

/-- Whether additions are some values under the names of all fields of a layout, in whatever order. -/
structure Layout.IsFilledBy (layout : Layout) (values : String → FieldValue)
    (added : List Addition) : Prop where
  names : (added.map Addition.name).Perm (layout.fields.map FieldSpec.name)
  values : ∀ a ∈ added, a.value = values a.name

namespace RecordBuilder

/-- Whether a builder is bound to a layout, encodes by a codec, and has nothing so far. -/
structure IsFresh [Codecs] (b : RecordBuilder) (layout : Layout) (codec : Codec) : Prop where
  reachable : b.Reachable
  target : b.target = some layout
  codec : b.codec = codec
  additions : b.additions = []
  finalized : b.finalized = false

section

variable [Codecs] {b b' : RecordBuilder} {layout : Layout} {codec : Codec} {mode : PackMode}
  {values : String → FieldValue} {added : List Addition} {name : String}

/-! ## Adding what was read -/

/-- A fresh builder takes values of the declared types. -/
theorem IsFresh.addAll_eq (hb : b.IsFresh layout codec) (hfilled : layout.IsFilledBy values added)
    (htypes : ∀ spec ∈ layout.fields, (values spec.name).type = spec.type) :
    b.addAll added = .ok (b.extend added) := by
  refine (addAll_eq_ok_iff hb.finalized).2 ⟨?_, fun a ha => ⟨?_, ?_⟩, rfl⟩
  · exact hfilled.names.nodup_iff.2 layout.wellFormed.distinct
  · simp [value?, hb.additions]
  · obtain ⟨spec, hspec, hname⟩ := List.mem_map.1
      (hfilled.names.mem_iff.1 (List.mem_map_of_mem ha))
    have hfield := (Layout.findField_eq_some_iff layout.wellFormed.distinct).2 ⟨hspec, hname⟩
    have htype : spec.type = a.value.type := by
      rw [hfilled.values a ha, ← hname, htypes spec hspec]
    simp [checkTarget, hb.target, Layout.field?, hfield, htype]

/-- What was added is what there is under the names of the fields, and nothing else is. -/
theorem IsFresh.value?_extend (hb : b.IsFresh layout codec)
    (hfilled : layout.IsFilledBy values added) (name : String) :
    (b.extend added).value? name =
      if name ∈ layout.fields.map FieldSpec.name then some (values name) else none := by
  have hadditions : (b.extend added).additions = added := by simp [extend, hb.additions]
  by_cases hname : name ∈ layout.fields.map FieldSpec.name
  · obtain ⟨a, ha, rfl⟩ := List.mem_map.1 (hfilled.names.mem_iff.2 hname)
    have hdistinct := hfilled.names.nodup_iff.2 layout.wellFormed.distinct
    rw [← hadditions] at ha hdistinct
    rw [if_pos hname, value?_of_mem hdistinct ha, hfilled.values a (hadditions ▸ ha)]
  · rw [if_neg hname, value?_eq_none_iff, hadditions, hfilled.names.mem_iff]
    exact hname

/-! ## Packing it -/

/-- Fields that all have a value are encoded if every single one is. -/
theorem encodeFields_isOk_iff {specs : List FieldSpec}
    (hvalues : ∀ spec ∈ specs, b.value? spec.name = some (values spec.name)) :
    (∃ data, b.encodeFields mode specs = .ok data) ↔
      ∀ spec ∈ specs, ∃ data, b.encodeField mode spec (values spec.name) = .ok data := by
  induction specs with
  | nil => simp [encodeFields]
  | cons spec later ih =>
    obtain ⟨hv, hlater⟩ := List.forall_mem_cons.1 hvalues
    rw [List.forall_mem_cons, ← ih hlater]
    simp only [encodeFields_cons_eq_ok_iff hv]
    constructor
    · rintro ⟨_, head, tail, hhead, htail, -⟩
      exact ⟨⟨head, hhead⟩, tail, htail⟩
    · rintro ⟨⟨head, hhead⟩, tail, htail⟩
      exact ⟨_, head, tail, hhead, htail, rfl⟩

/-- A bound builder that has all values packs them if they are encoded. -/
theorem pack_complete_eq {data : Bytes} (hopen : b.finalized = false)
    (htarget : b.target = some layout)
    (hvalues : ∀ spec ∈ layout.fields, b.value? spec.name = some (values spec.name))
    (hdata : b.encodeFields .complete layout.fields = .ok data) :
    b.pack .complete = .ok ⟨b.recordOf data, layout⟩ := by
  have hmissing : b.missing = [] := (missing_eq_nil_iff htarget).2 fun spec hspec => by
    rw [hvalues spec hspec]
    rfl
  exact pack_eq hopen (fun _ => hmissing) (layout_of_target htarget) hdata

/-- A builder with all values packs exactly if every one of them can be encoded. -/
theorem pack_complete_isOk_iff (hopen : b.finalized = false) (htarget : b.target = some layout)
    (hvalues : ∀ spec ∈ layout.fields, b.value? spec.name = some (values spec.name)) :
    (∃ p, b.pack .complete = .ok p) ↔
      ∀ spec ∈ layout.fields, ∃ data, b.encodeField .complete spec (values spec.name) = .ok data := by
  rw [← encodeFields_isOk_iff hvalues]
  constructor
  · rintro ⟨p, h⟩
    obtain ⟨-, -, data, hdata, -⟩ := pack_eq_ok h
    exact ⟨data, layout_of_pack htarget h ▸ hdata⟩
  · rintro ⟨data, hdata⟩
    exact ⟨_, pack_complete_eq hopen htarget hvalues hdata⟩

omit [Codecs] in
/-- A number is that of the elements of some bytes exactly if so many elements are as long. -/
theorem count_eq_iff {count : Int} {length width : Nat} (hpos : 0 < width) (hdvd : width ∣ length)
    (hnonneg : 0 ≤ count) : count = Int.ofNat (length / width) ↔ length = count.toNat * width := by
  constructor
  · rintro rfl
    rw [Int.ofNat_eq_natCast, Int.toNat_natCast, Nat.div_mul_cancel hdvd]
  · intro h
    rw [h, Nat.mul_div_cancel _ hpos, Int.ofNat_eq_natCast, Int.toNat_of_nonneg hnonneg]

/-- A value that was read is encoded again, unless its field has a length elsewhere and the string does
not take all of it. -/
theorem encodeField_isOk_iff {strict : Bool} {before : List Part} {rest raw : Bytes} {part : Part}
    {v : FieldValue} (hp : part.Conforms strict before rest)
    (hr : part.spec.Restores b.codec part.value v raw)
    (hheld : ∀ reference count, Part.Holds before reference count →
      (b.value? reference).bind FieldValue.integer? = some count) :
    (∃ data, b.encodeField .complete part.spec v = .ok data) ↔
      ∀ reference, part.spec.rule = .lengthField reference → part.spec.type.isString = true →
        part.spec.type.NulFree part.value := by
  have hfits : (∃ data, b.encodeField .complete part.spec v = .ok data) ↔
      ∃ data, b.applyRule .complete part.spec raw = .ok data := by
    simp [encodeField_eq_ok_iff, hr.encode, hr.free]
  rw [hfits, applyRule]
  rw [Part.Conforms] at hp
  cases hrule : part.spec.rule with
  | fixed width =>
    simp only [hrule] at hp ⊢
    have hle : raw.length ≤ width := hp.2.1 ▸ hr.length_le
    simp [hle]
  | nullTerminated => simp
  | lengthField reference =>
    simp only [hrule] at hp
    obtain ⟨-, -, count, hholds, hnonneg, -, hlength⟩ := hp
    have hdvd : part.spec.type.elementWidth ∣ raw.length :=
      hr.type ▸ FieldValue.dvd_length_of_encode hr.encode
    -- the length is right exactly if no character of the string is lost
    have hcount : (b.value? reference).bind FieldValue.integer? =
        some (Int.ofNat (raw.length / part.spec.type.elementWidth)) ↔
          (part.spec.type.isString = true → part.spec.type.NulFree part.value) := by
      rw [hheld reference count hholds, Option.some.injEq,
        count_eq_iff part.spec.type.elementWidth_pos hdvd hnonneg, ← hlength, hr.length_eq_iff]
    simp only [reduceCtorEq, false_or, hcount, LengthRule.lengthField.injEq, forall_eq']
    split <;> simp_all
  | remainder => simp
  | counted =>
    simp only [hrule] at hp ⊢
    have hlt : raw.length < wordCount 16 := by
      have hle := hr.length_le
      have hsum := hp.2.1
      rw [List.length_append] at hsum
      omega
    simp [hlt]

/-- Builders with the same values and codecs encode alike. -/
theorem encodeFields_congr (hcodec : b.codec = b'.codec)
    (hvalues : ∀ name, b.value? name = b'.value? name) (specs : List FieldSpec) :
    b.encodeFields mode specs = b'.encodeFields mode specs := by
  induction specs with
  | nil => rfl
  | cons spec later ih =>
    simp only [encodeFields, hvalues, encodeField, applyRule, hcodec, ih]

/-! ## Reading it again -/

section Read

variable {p : FieldReader} {q : PackedRecord}

theorem IsFresh.value?_of_mem (hb : b.IsFresh layout codec) (hfilled : layout.IsFilledBy values added)
    {spec : FieldSpec} (hspec : spec ∈ layout.fields) :
    (b.extend added).value? spec.name = some (values spec.name) := by
  rw [hb.value?_extend hfilled, if_pos (List.mem_map_of_mem hspec)]

/-- The values of a record are packed unless a string ends at a NUL within its length. -/
theorem pack_values_isOk_iff (hcodec : p.settings.codec.EncodesDecoded) (hread : p.Holds values)
    (hb : b.IsFresh p.layout p.settings.codec) (hfilled : p.layout.IsFilledBy values added) :
    (∃ q, (b.extend added).pack .complete = .ok q) ↔ p.LengthsNulFree := by
  have hpack := pack_complete_isOk_iff (b := b.extend added) hb.finalized hb.target
    fun spec hspec => hb.value?_of_mem hfilled hspec
  rw [hpack, FieldReader.LengthsNulFree]
  refine forall₂_congr fun spec hspec => ?_
  obtain ⟨before, part, rest, rfl, hfrom, hbefore⟩ := hread.exists_part hspec
  obtain ⟨raw, hr⟩ := exists_restores hcodec hfrom.conforms hfrom.suits hfrom.decode
  rw [← hb.codec, ← codec_extend b added] at hr
  have hheld : ∀ reference count, Part.Holds before reference count →
      ((b.extend added).value? reference).bind FieldValue.integer? = some count := by
    rintro reference count ⟨q, hq, rfl, hcount⟩
    obtain ⟨hmem, hvalue⟩ := hbefore q hq
    rw [hb.value?_of_mem hfilled hmem, Option.bind_some, ← hvalue, hcount]
  obtain ⟨s, hs, hvalue⟩ := hfrom.resolve
  rw [encodeField_isOk_iff hfrom.conforms hr hheld]
  simp [hs, hvalue]

/-- A string that was read is no longer than the length that its field has. -/
theorem countable_of_holds (hcodec : p.settings.codec.EncodesDecoded) (hread : p.Holds values)
    (hb : b.IsFresh p.layout p.settings.codec) (hfilled : p.layout.IsFilledBy values added) :
    (b.extend added).Countable p.layout.fields := by
  intro spec hspec reference v raw hrule hv hraw
  rw [hb.value?_of_mem hfilled hspec, Option.some.injEq] at hv
  obtain ⟨before, part, rest, rfl, hfrom, -⟩ := hread.exists_part hspec
  obtain ⟨raw', hr⟩ := exists_restores hcodec hfrom.conforms hfrom.suits hfrom.decode
  have hencode := hr.encode
  rw [hv, ← hb.codec] at hencode
  obtain rfl : raw = raw' := Except.ok.inj (hraw.symm.trans hencode)
  have hp := hfrom.conforms
  rw [Part.Conforms, hrule] at hp
  obtain ⟨-, -, count, -, -, hlt, hlength⟩ := hp
  exact Nat.lt_of_le_of_lt hr.length_le (hlength ▸ hlt)

/-- What was packed is read as the values that were added. -/
theorem holds_of_pack (hdecodes : p.settings.codec.DecodesEncoded)
    (hencodes : p.settings.codec.EncodesDecoded) (hread : p.Holds values)
    (hb : b.IsFresh p.layout p.settings.codec) (hfilled : p.layout.IsFilledBy values added)
    (h : (b.extend added).pack .complete = .ok q) {settings : Settings}
    (hsettings : settings.codec = p.settings.codec) : (q.reader settings).Holds values := by
  have htarget := (target_extend b added).trans hb.target
  have hsame := layout_of_pack htarget h
  have hreachable := hb.reachable.addAll (hb.addAll_eq hfilled fun _ => hread.type_eq)
  have hcount := countable_of_holds hencodes hread hb hfilled
  rw [← hb.codec] at hdecodes hsettings
  intro spec hspec
  obtain ⟨v, l, hv, hl, hdecode⟩ := exists_located_of_countable hreachable hdecodes h
    (hsame ▸ hcount) hsettings hspec
  have hmem : spec ∈ p.layout.fields := hsame ▸ hspec
  rw [hb.value?_of_mem hfilled hmem, Option.some.injEq] at hv
  rw [readBack, htarget, ← hv] at hdecode
  rw [← hread.filled_eq hmem]
  exact FieldReader.read_any_eq hl hdecode

/-- Fresh builders of one layout and codec pack the same values as the same bytes. -/
theorem exists_pack_of_same {b₁ b₂ : RecordBuilder} {added₁ added₂ : List Addition}
    (hb₁ : b₁.IsFresh layout codec) (hb₂ : b₂.IsFresh layout codec)
    (hfilled₁ : layout.IsFilledBy values added₁) (hfilled₂ : layout.IsFilledBy values added₂)
    (h : (b₁.extend added₁).pack .complete = .ok q) :
    ∃ q₂, (b₂.extend added₂).pack .complete = .ok q₂ ∧ q₂.record.userData = q.record.userData := by
  obtain ⟨-, -, data, hdata, hrecord⟩ := pack_eq_ok h
  have hcodec : (b₂.extend added₂).codec = (b₁.extend added₁).codec :=
    hb₂.codec.trans hb₁.codec.symm
  have hvalues : ∀ name, (b₂.extend added₂).value? name = (b₁.extend added₁).value? name := by
    intro name
    rw [hb₂.value?_extend hfilled₂, hb₁.value?_extend hfilled₁]
  rw [← encodeFields_congr hcodec hvalues,
    layout_of_pack ((target_extend b₁ added₁).trans hb₁.target) h] at hdata
  have hpack := pack_complete_eq (b := b₂.extend added₂) hb₂.finalized hb₂.target
    (fun spec hspec => hb₂.value?_of_mem hfilled₂ hspec) hdata
  exact ⟨_, hpack, by rw [hrecord, userData_recordOf, userData_recordOf]⟩

/-- A fresh builder takes the values that the fields of a record are read as. It packs them unless a
string of the record has a NUL character within a length that another field holds, they are read again
as they are, and packed again they come to the same bytes. -/
theorem pack_read (hdecodes : p.settings.codec.DecodesEncoded)
    (hencodes : p.settings.codec.EncodesDecoded) (hread : p.Holds values)
    (hb : b.IsFresh p.layout p.settings.codec) (hfilled : p.layout.IsFilledBy values added) :
    ∃ b', b.addAll added = .ok b' ∧ ((∃ q, b'.pack .complete = .ok q) ↔ p.LengthsNulFree) ∧
      ∀ q, b'.pack .complete = .ok q →
        (∀ settings, settings.codec = p.settings.codec → (q.reader settings).Holds values) ∧
        ∀ (b₂ : RecordBuilder) (added₂ : List Addition), b₂.IsFresh p.layout p.settings.codec →
          p.layout.IsFilledBy values added₂ → ∃ b₂' q₂, b₂.addAll added₂ = .ok b₂' ∧
            b₂'.pack .complete = .ok q₂ ∧ q₂.record.userData = q.record.userData := by
  refine ⟨_, hb.addAll_eq hfilled fun _ => hread.type_eq,
    pack_values_isOk_iff hencodes hread hb hfilled, fun q h => ⟨fun settings hsettings => ?_, ?_⟩⟩
  · exact holds_of_pack hdecodes hencodes hread hb hfilled h hsettings
  · intro b₂ added₂ hb₂ hfilled₂
    obtain ⟨q₂, hpack, hdata⟩ := exists_pack_of_same hb hb₂ hfilled hfilled₂ h
    exact ⟨_, q₂, hb₂.addAll_eq hfilled₂ fun _ => hread.type_eq, hpack, hdata⟩

end Read

end

/-- A record with bytes that its values do not say: a true flag of another pattern, and half a unit
where a terminator should be. -/
def stray : FieldReader where
  record := .new (.new .nil 1 0) [2, 97, 98, 0, 0, 1, 0, 72, 0, 7]
  layout := ⟨⟨1, 0⟩, none, [.natural "Count" (.scalar (.word .uint8)),
    ⟨"Name", .ansiString, .lengthField "Count"⟩, .natural "Flag" (.scalar .boolean),
    .natural "Title" .unicodeString], rfl⟩

def strayValues (name : String) : FieldValue :=
  if name = "Count" then .scalar (.word .uint8 2)
  else if name = "Name" then .ansiString "ab"
  else if name = "Flag" then .scalar (.boolean true)
  else .unicodeString "H"

theorem holds_stray : stray.Holds strayValues := by
  rw [FieldReader.Holds, stray]
  simp only [List.forall_mem_cons]
  exact ⟨rfl, rfl, rfl, rfl, by simp⟩

/-- A flag that is not canonical and a title without its terminator, packed again from what they
hold. -/
theorem pack_read_stray : ∃ b q,
    (forLayout .nil stray.layout).addAll [.unicode "Title" "H", .ansi "Name" "ab",
      .scalar "Count" (.word .uint8 2), .scalar "Flag" (.boolean true)] = .ok b ∧
    b.pack .complete = .ok q ∧ q.record.userData = [2, 97, 98, 1, 0, 0, 0, 72, 0, 0, 0] ∧
    q.reader.Holds strayValues := by
  have hb : (forLayout .nil stray.layout).IsFresh stray.layout stray.settings.codec :=
    ⟨.forLayout _ _, rfl, rfl, rfl, rfl⟩
  have hfilled : stray.layout.IsFilledBy strayValues [.unicode "Title" "H", .ansi "Name" "ab",
      .scalar "Count" (.word .uint8 2), .scalar "Flag" (.boolean true)] :=
    ⟨by decide, by decide⟩
  obtain ⟨b, hadd, -, hall⟩ := pack_read Codec.decodesEncoded_windows1252
    Codec.encodesDecoded_windows1252 holds_stray hb hfilled
  cases hadd
  exact ⟨_, _, rfl, rfl, rfl, (hall _ rfl).1 _ rfl⟩

end RecordBuilder

end EventTrace
