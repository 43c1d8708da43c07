import EventTrace.Proofs.Reading.Bounds
import EventTrace.Reading.Machine

/-!
# Reading in words never stops

Where no word is too small for the length of the data (and for the two bytes more that a missing
terminator or a count may ask for), a machine answers every call as the reader does: each operation is
matched with its counterpart under the invariant that the cursor and the segments are those of parts
that the data is read as (`Walker.of`).
-/

namespace EventTrace.Machine

/-! ## Words and slices -/

theorem add_eq_some {a b : Nat} (h : a + b < lengthBound) : add a b = some (a + b) := if_pos h

theorem sub_eq_some {a b : Nat} (h : b ≤ a) : sub a b = some (a - b) := if_pos h

theorem slice_eq_some {data : Bytes} {start stop : Nat} (h : start ≤ stop)
    (h' : stop ≤ data.length) :
    slice data start stop = some ((data.drop start).take (stop - start)) := if_pos ⟨h, h'⟩

/-- On words, a range is cut out as on numbers. -/
theorem get_eq_slice {data : Bytes} (hsize : data.length < lengthBound) (offset length : Nat)
    (what : String) : get data offset length what = data.slice offset length what := by
  by_cases hle : offset + length ≤ data.length
  · have hadd := add_eq_some (Nat.lt_of_le_of_lt hle hsize)
    have hslice := slice_eq_some (Nat.le_add_right offset length) hle
    rw [Nat.add_sub_cancel_left] at hslice
    simp only [get, hadd, Option.bind_some, hslice, Bytes.slice, Bytes.slice?, if_pos hle]
  · have hnone : (add offset length).bind (slice data offset) = none := by
      by_cases hadd : offset + length < lengthBound
      · rw [add_eq_some hadd, Option.bind_some, slice, if_neg fun h => hle h.2]
      · rw [add, if_neg hadd, Option.bind_none]
    simp only [get, hnone, Bytes.slice, Bytes.slice?, if_neg hle]

/-! ## Segments -/

theorem nul?_le_length {t : FieldType} {raw : Bytes} {n : Nat} (h : t.nul? raw = some n) :
    n + t.elementWidth ≤ raw.length := by
  obtain ⟨value, rest, rfl, rfl, -, -⟩ := t.exists_of_nul?_eq_some h
  simp only [List.length_append, FieldType.length_zeros]
  omega

variable {p : FieldReader}

theorem le_length_of_slice {data raw : Bytes} {offset length : Nat} {what : String}
    (h : data.slice offset length what = .ok raw) : offset + length ≤ data.length := by
  by_contra hgt
  simp [Bytes.slice, Bytes.slice?, hgt] at h

/-- On words, a field of a fixed length is located as on numbers. -/
theorem locatePlain_eq (hsize : p.data.length < lengthBound) (spec : FieldSpec) (start length : Nat) :
    locatePlain p spec start length = some (EventTrace.locatePlain p.data spec start length) := by
  rw [locatePlain, get_eq_slice hsize, EventTrace.locatePlain, require]
  cases hslice : p.data.slice start length spec.name with
  | error e => rfl
  | ok raw =>
    have hle := le_length_of_slice hslice
    simp only [add_eq_some (Nat.lt_of_le_of_lt hle hsize), Option.bind_eq_bind, Option.bind_some]
    rfl

/-- On words, a text is located as on numbers. -/
theorem locateTerminated_eq (hsize : p.data.length + 2 < lengthBound) (spec : FieldSpec)
    {start : Nat} (hstart : start ≤ p.data.length) :
    locateTerminated p spec start =
      some (EventTrace.locateTerminated p.settings p.data spec start) := by
  have helement : spec.type.elementWidth ≤ 2 := by
    cases spec.type <;> simp [FieldType.elementWidth]
  have hlength : (p.data.drop start).length = p.data.length - start := List.length_drop
  have htail := slice_eq_some hstart (Nat.le_refl p.data.length)
  rw [List.take_of_length_le (Nat.le_of_eq hlength)] at htail
  simp only [locateTerminated, EventTrace.locateTerminated, sub_eq_some hstart, htail,
    Option.bind_eq_bind, Option.bind_some]
  by_cases hnil : p.data.length - start = 0
  · rw [if_pos hnil, if_pos hnil]
    rfl
  · rw [if_neg hnil, if_neg hnil]
    cases hnul : spec.type.nul? (p.data.drop start) with
    | some n =>
      have hn := nul?_le_length hnul
      have hend : add n spec.type.elementWidth = some _ := add_eq_some (by omega)
      have hstop : add start n = some _ := add_eq_some (by omega)
      simp only [hend, hstop, Option.bind_some]
      rfl
    | none =>
      have hneed : add (p.data.length - start) spec.type.elementWidth = some _ :=
        add_eq_some (by omega)
      have hmod := Nat.mod_le (p.data.length - start) spec.type.elementWidth
      have hstop : add start (p.data.length - start -
          (p.data.length - start) % spec.type.elementWidth) = some _ := add_eq_some (by omega)
      simp only [hneed, sub_eq_some hmod, hstop, Option.bind_some]
      by_cases hstrict : p.settings.strict = true
      · rw [if_pos hstrict, if_pos hstrict]
        rfl
      · rw [if_neg hstrict, if_neg hstrict]
        rfl

/-- On words, what is left is located as on numbers. -/
theorem locateRemainder_eq (hsize : p.data.length < lengthBound) (spec : FieldSpec) {start : Nat}
    (hstart : start ≤ p.data.length) :
    locateRemainder p spec start =
      some (.ok (.whole spec.type.elementWidth start (p.data.length - start))) := by
  have hmod := Nat.mod_le (p.data.length - start) spec.type.elementWidth
  have hstop : add start (p.data.length - start -
      (p.data.length - start) % spec.type.elementWidth) = some _ := add_eq_some (by omega)
  simp only [locateRemainder, sub_eq_some hstart, sub_eq_some hmod, hstop, Option.bind_eq_bind,
    Option.bind_some]
  rfl

/-- On words, a counted text is located as on numbers. -/
theorem locateCounted_eq (hsize : p.data.length < lengthBound) (spec : FieldSpec) (start : Nat) :
    locateCounted p spec start = some (EventTrace.locateCounted p.data spec start) := by
  simp only [locateCounted, get_eq_slice hsize, EventTrace.locateCounted]
  cases hcounted : p.data.slice start 2 spec.name with
  | error e => rfl
  | ok counted =>
    have hle := le_length_of_slice hcounted
    have hbody : add start 2 = some _ := add_eq_some (by omega)
    simp only [hbody, Option.bind_eq_bind, Option.bind_some, require]
    cases hslice : p.data.slice (start + 2) counted.toNatLE spec.name with
    | error e => rfl
    | ok raw =>
      have hle' := le_length_of_slice hslice
      have hmod := Nat.mod_le counted.toNatLE spec.type.elementWidth
      have hstop : add (start + 2) (counted.toNatLE - counted.toNatLE % spec.type.elementWidth) =
          some _ := add_eq_some (by omega)
      have hlength : add counted.toNatLE 2 = some _ := add_eq_some (by omega)
      simp only [sub_eq_some hmod, hstop, hlength, Option.bind_some]
      rfl

theorem raw_eq {s : Segment} (hs : s.Within p.data) : raw p s = some (s.value p.data) :=
  slice_eq_some hs.start_le (Nat.le_trans hs.stop_le hs.le_length)

/-! ## Values -/

theorem slice_upToNul (raw : Bytes) :
    slice raw 0 ((raw.findIdx? (· = 0)).getD raw.length) = some (raw.takeWhile (· ≠ 0)) := by
  rw [← List.findIdx_eq_getD_findIdx?, slice_eq_some (Nat.zero_le _) List.findIdx_le_length,
    List.takeWhile_eq_take_findIdx_not]
  simp

section

variable [Codecs]

/-- Decoding a value stops nothing. -/
theorem decodeValue_eq (settings : Settings) (spec : FieldSpec) (offset : Nat) (raw : Bytes) :
    decodeValue settings spec offset raw =
      some (EventTrace.decodeValue settings spec offset raw) := by
  cases ht : spec.type with
  | scalar t => simp only [decodeValue, ht]
  | ansiString =>
    simp only [decodeValue, ht, slice_upToNul, Option.bind_eq_bind, Option.bind_some,
      EventTrace.decodeValue, decodeAnsi]
    cases settings.codec.decode (raw.takeWhile (· ≠ 0)) <;> rfl
  | unicodeString =>
    have hwhole := sub_eq_some (Nat.mod_le raw.length 2)
    have hstop : (Utf16.unitNul? raw).getD (raw.length - raw.length % 2) ≤ raw.length := by
      cases hnul : Utf16.unitNul? raw with
      | none => exact Nat.sub_le _ _
      | some n => exact Nat.le_of_add_right_le (nul?_le_length (t := .unicodeString) hnul)
    have hslice := slice_eq_some (Nat.zero_le _) hstop
    rw [List.drop_zero, Nat.sub_zero] at hslice
    simp only [decodeValue, ht, hwhole, Option.bind_eq_bind, Option.bind_some, hslice,
      EventTrace.decodeValue, decodeUnicode]
    cases Utf16.decode (raw.take ((Utf16.unitNul? raw).getD (raw.length - raw.length % 2))) <;> rfl
  | rawBytes => simp only [decodeValue, ht]

/-! ## Behind parts of the data -/

/-- The walker behind parts of the data. -/
def Walker.of (parts : List Part) : Walker :=
  ⟨(bytesOf parts).length, (locatedOf parts).map Located.segment⟩

section Walks

variable {parts before after : List Part} {part : Part} {rest : Bytes} {count : Nat}
  {spec : FieldSpec}

omit [Codecs] in
@[simp] theorem length_ranges_of (parts : List Part) :
    (Walker.of parts).ranges.length = parts.length := by
  rw [Walker.of, List.length_map, length_locatedOf]

omit [Codecs] in
theorem ranges_of_append (parts : List Part) (part : Part) :
    (Walker.of (parts ++ [part])).ranges =
      (Walker.of parts).ranges ++ [part.segmentAt (bytesOf parts).length] := by
  rw [Walker.of, locatedOf_append_singleton, List.map_append]
  rfl

omit [Codecs] in
/-- A walker keeps the range of each part that it has passed. -/
theorem ranges_of_getElem? (before after : List Part) (part : Part) :
    (Walker.of (before ++ part :: after)).ranges[before.length]? =
      some (part.segmentAt (bytesOf before).length) := by
  have hle : ((locatedOf before).map Located.segment).length ≤ before.length := by
    simp
  rw [Walker.of, locatedOf, locatedFrom_append, ← locatedOf, List.map_append,
    List.getElem?_append_right hle]
  simp [locatedFrom]

/-- The field at some position decodes as the part there. -/
theorem decode_eq (h : p.Reads count (before ++ part :: after) rest) :
    decode p before.length (part.segmentAt (bytesOf before).length) =
      some (Located.decode ⟨part.spec, part.segmentAt (bytesOf before).length⟩ p.settings p.data) := by
  rw [decode, h.getElem?]
  simp only [Option.bind_eq_bind, Option.bind_some, raw_eq h.decomposes.within, decodeValue_eq]
  rfl

omit [Codecs] in
theorem drop_eq_cons {α : Type} {xs : List α} {i : Nat} {x : α} (h : xs[i]? = some x) :
    xs.drop i = x :: xs.drop (i + 1) := by
  rw [List.drop_eq_getElem?_toList_append, h]
  rfl

omit [Codecs] in
theorem fields_next (h : p.Reads parts.length parts rest)
    (hspec : p.layout.fields[parts.length]? = some spec) :
    p.layout.fields = parts.map Part.spec ++ spec :: p.layout.fields.drop (parts.length + 1) := by
  rw [← drop_eq_cons hspec]
  exact h.fields_eq

/-- The field that holds the length of the next one was located, and holds an integer. -/
theorem exists_referenced (h : p.Reads parts.length parts rest)
    (hspec : p.layout.fields[parts.length]? = some spec) {reference : String}
    (hrule : spec.rule = .lengthField reference) :
    ∃ position s v n, p.layout.position? reference = some position ∧
      (Walker.of parts).ranges[position]? = some s ∧ decode p position s = some (.ok v) ∧
      v.integer? = some n ∧
      EventTrace.referencedLength p.settings p.data (locatedOf parts) spec reference =
        lengthOf spec reference n := by
  have hwf := p.layout.wellFormed
  rw [fields_next h hspec] at hwf
  obtain ⟨before, q, after, n, v, rfl, rfl, -, hv, hlength⟩ := exists_reference h.decomposes hwf hrule
  obtain ⟨hdecode, hlength⟩ := hlength p.settings
  have hup : p.layout.upTo? q.spec.name = some (before.map Part.spec, q.spec) :=
    Layout.upTo?_eq_some_iff.2 ⟨rfl, _, h.fields_split⟩
  refine ⟨before.length, _, v, n, ?_, ranges_of_getElem? before after q, ?_, hv, hlength⟩
  · rw [Layout.position?_eq, hup]
    simp
  · rw [decode_eq h, hdecode]

/-- A walker reads the length in another field where the reader reads it. -/
theorem referencedLength_eq (h : p.Reads parts.length parts rest)
    (hspec : p.layout.fields[parts.length]? = some spec) {reference : String}
    (hrule : spec.rule = .lengthField reference) :
    referencedLength p (.of parts) spec reference =
      some (EventTrace.referencedLength p.settings p.data (locatedOf parts) spec reference) := by
  obtain ⟨position, s, v, n, hposition, hs, hdecode, hv, hlength⟩ := exists_referenced h hspec hrule
  obtain ⟨hlt, -⟩ := List.getElem?_eq_some_iff.1 hs
  simp only [referencedLength, hposition, Option.filter_some, hlt, decide_true, if_true, hs,
    Option.bind_eq_bind, Option.bind_some, hdecode, hv, hlength, Option.getD_some]
  rfl

/-- A walker behind some parts locates the next field where the reader does. -/
theorem locate_eq (hsize : p.data.length + 2 < lengthBound) (h : p.Reads parts.length parts rest)
    (hspec : p.layout.fields[parts.length]? = some spec) :
    locate p (.of parts) spec =
      some (EventTrace.locate p.settings p.data (locatedOf parts) spec) := by
  have hsize' : p.data.length < lengthBound := Nat.lt_of_le_of_lt (Nat.le_add_right _ 2) hsize
  have hcursor : (Walker.of parts).cursor = (bytesOf parts).length := rfl
  have hle : (bytesOf parts).length ≤ p.data.length := by
    rw [h.decomposes.length_eq]
    exact Nat.le_add_right _ _
  simp only [locate, EventTrace.locate, hcursor, stopOf_locatedOf]
  cases hrule : spec.rule with
  | fixed width => exact locatePlain_eq hsize' spec _ width
  | nullTerminated => exact locateTerminated_eq hsize spec hle
  | lengthField reference =>
    simp only [referencedLength_eq h hspec hrule, Option.bind_eq_bind, Option.bind_some]
    cases EventTrace.referencedLength p.settings p.data (locatedOf parts) spec reference with
    | error e => rfl
    | ok length => exact locatePlain_eq hsize' spec _ length
  | remainder => exact locateRemainder_eq hsize' spec hle
  | counted => exact locateCounted_eq hsize' spec _

/-- A step goes behind the part of the next field, or it ends with the error of locating it. -/
theorem step_cases (hsize : p.data.length + 2 < lengthBound) (h : p.Reads parts.length parts rest)
    (hspec : p.layout.fields[parts.length]? = some spec) :
    (∃ e, EventTrace.locate p.settings p.data (locatedOf parts) spec = .error e ∧
      step p (.of parts) = some (.error e)) ∨
    ∃ part rest', part.spec = spec ∧ p.Reads (parts.length + 1) (parts ++ [part]) rest' ∧
      EventTrace.locate p.settings p.data (locatedOf parts) spec =
        .ok (part.segmentAt (bytesOf parts).length) ∧
      step p (.of parts) = some (.ok (.of (parts ++ [part]))) := by
  have hfields := fields_next h hspec
  have hwf := p.layout.wellFormed
  rw [hfields] at hwf
  cases hlocate : EventTrace.locate p.settings p.data (locatedOf parts) spec with
  | error e =>
    refine .inl ⟨e, rfl, ?_⟩
    simp only [step, length_ranges_of, hspec, Option.bind_eq_bind, Option.bind_some,
      locate_eq hsize h hspec, hlocate]
    rfl
  | ok s =>
    obtain ⟨part, rest', rfl, rfl, rfl, hp⟩ := (locate_eq_ok_iff h.decomposes hwf).1 hlocate
    have hd := Decomposes.append_singleton_iff.2 ⟨h.decomposes, hp⟩
    have hreads : p.Reads (parts.length + 1) (parts ++ [part]) rest' := by
      refine ⟨?_, hd⟩
      rw [List.take_add_one, ← h.specs, hspec, List.map_append]
      rfl
    refine .inr ⟨part, rest', rfl, hreads, rfl, ?_⟩
    have hstop : add (part.segmentAt (bytesOf parts).length).offset
        (part.segmentAt (bytesOf parts).length).length = some (bytesOf (parts ++ [part])).length := by
      have hlength := hd.length_eq
      rw [bytesOf_append, List.length_append, bytesOf_cons, bytesOf_nil, List.append_nil] at hlength ⊢
      exact add_eq_some (by simp only [Part.segmentAt]; omega)
    simp only [step, length_ranges_of, hspec, Option.bind_eq_bind, Option.bind_some,
      locate_eq hsize h hspec, hlocate, hstop, ← ranges_of_append]
    rfl

/-- Steps through the first fields of a layout end as a walk through them does. -/
theorem walk_cases (hsize : p.data.length + 2 < lengthBound) (hcount : count ≤ p.layout.fields.length) :
    (∃ e, (EventTrace.walk p.settings p.data (p.layout.fields.take count)).failure = some e ∧
      walk p count = some (.error e)) ∨
    ∃ parts rest, parts.length = count ∧ p.Reads count parts rest ∧
      walk p count = some (.ok (.of parts)) := by
  induction count with
  | zero => exact .inr ⟨[], p.data, rfl, ⟨rfl, .nil _ _⟩, rfl⟩
  | succ count ih =>
    obtain ⟨spec, hspec⟩ : ∃ spec, p.layout.fields[count]? = some spec :=
      ⟨_, List.getElem?_eq_getElem hcount⟩
    have htake : p.layout.fields.take (count + 1) = p.layout.fields.take count ++ [spec] := by
      rw [List.take_add_one, hspec]
      rfl
    -- the steps so far failed as the walk did, or stand behind the parts of the first fields
    rcases ih (Nat.le_of_succ_le hcount) with ⟨e, he, hwalk⟩ | ⟨parts, rest, rfl, h, hwalk⟩
    · refine .inl ⟨e, ?_, by rw [walk, hwalk]; rfl⟩
      rw [EventTrace.walk] at he ⊢
      rw [htake, walkFrom_append]
      split
      · rename_i hnone
        rw [hnone] at he
        cases he
      · rename_i hsome
        rw [hsome] at he
        exact he
    · have hwf := p.layout.wellFormed
      rw [h.fields_eq] at hwf
      have hfound := walk_of_decomposes h.decomposes hwf
      rw [h.specs] at hfound
      rcases step_cases hsize h hspec with ⟨e, he, hstep⟩ | ⟨part, rest', -, h', -, hstep⟩
      · refine .inl ⟨e, ?_, by rw [walk, hwalk]; exact hstep⟩
        rw [htake, walk_append_singleton hfound, he]
      · exact .inr ⟨parts ++ [part], rest', by simp, h', by rw [walk, hwalk]; exact hstep⟩

end Walks

/-! ## Calls -/

section Calls

variable {before later : List FieldSpec} {spec : FieldSpec} {l : Located}

/-- The field behind some declarations is located as the reader locates it. -/
theorem locateAt_eq (hsize : p.data.length + 2 < lengthBound)
    (hfields : p.layout.fields = before ++ spec :: later) :
    locateAt p before.length = some ((p.locateAfter before spec).map Located.segment) := by
  have hspec := FieldReader.getElem?_of_fields_eq hfields
  have htake : p.layout.fields.take before.length = before := by
    rw [hfields, List.take_left]
  have hcount : before.length ≤ p.layout.fields.length := by
    rw [hfields, List.length_append]
    exact Nat.le_add_right _ _
  have hwf := p.layout.wellFormed
  rw [locateAt, walk]
  rcases walk_cases hsize hcount with ⟨e, he, hwalk⟩ | ⟨parts, rest, hlength, h, hwalk⟩
  · rw [htake] at he
    rcases FieldReader.locateAfter_cases hfields with ⟨e', he', hafter⟩ | ⟨_, _, _, _, hnone, _⟩
    · rw [he, Option.some.injEq] at he'
      rw [hwalk, hafter, he']
      rfl
    · rw [hnone] at he
      cases he
  · have hspecs := h.specs
    rw [htake] at hspecs
    subst hspecs
    rw [hfields] at hwf
    have hspec' : p.layout.fields[parts.length]? = some spec := by rwa [hlength]
    rw [FieldReader.locateAfter, walk_of_decomposes h.decomposes hwf, hwalk]
    rcases step_cases hsize (hlength ▸ h) hspec' with ⟨e, he, hstep⟩ | ⟨part, rest', _, _, hok, hstep⟩
    · simp only [he, hstep, Option.bind_eq_bind, Option.bind_some, Except.map]
      rfl
    · simp only [hok, hstep, Option.bind_eq_bind, Option.bind_some, Except.map, ranges_of_append,
        List.getLast?_concat]
      rfl

/-- A located field decodes as the reader decodes it. -/
theorem decode_of_locateAfter (hfields : p.layout.fields = before ++ spec :: later)
    (hl : p.locateAfter before spec = .ok l) :
    decode p before.length l.segment = some (l.decode p.settings p.data) ∧
      raw p l.segment = some (l.segment.value p.data) ∧ l.spec = spec := by
  obtain ⟨parts, part, rest, rfl, rfl, hd, rfl⟩ := (FieldReader.locateAfter_eq_ok_iff hfields).1 hl
  have hfields' : p.layout.fields = (parts ++ [part]).map Part.spec ++ later := by
    rw [hfields]
    simp
  have hdecode := decode_eq (FieldReader.reads_of_fields_eq hfields' hd)
  rw [List.length_map]
  exact ⟨hdecode, raw_eq hd.within, rfl⟩

theorem materialize_of_locateAfter (hfields : p.layout.fields = before ++ spec :: later)
    (hl : p.locateAfter before spec = .ok l) :
    materialize p before.length l.segment = some (p.parseLocated l) := by
  have hspec := FieldReader.getElem?_of_fields_eq hfields
  obtain ⟨hdecode, hraw, rfl⟩ := decode_of_locateAfter hfields hl
  simp only [materialize, hspec, hdecode, hraw, Option.bind_eq_bind, Option.bind_some,
    FieldReader.parseLocated]
  cases l.decode p.settings p.data <;> rfl

omit [Codecs] in
/-- A name has a position exactly if it has a declaration, which stands there. -/
theorem position?_cases (p : FieldReader) (name : String) :
    (p.layout.position? name = none ∧
      p.declaration name = .error (.fieldNotFound name p.layout.key)) ∨
    ∃ before spec later, p.layout.fields = before ++ spec :: later ∧
      p.layout.position? name = some before.length ∧ p.declaration name = .ok (before, spec) := by
  rw [Layout.position?_eq, FieldReader.declaration]
  cases hup : p.layout.upTo? name with
  | none => exact .inl ⟨rfl, rfl⟩
  | some d =>
    obtain ⟨before, spec⟩ := d
    obtain ⟨-, later, hfields⟩ := Layout.upTo?_eq_some_iff.1 hup
    exact .inr ⟨before, spec, later, hfields, rfl, rfl⟩

/-- A field is resolved without stopping. -/
theorem resolve_eq (hsize : p.data.length + 2 < lengthBound) (name : String) :
    resolve p name = some (p.resolve name) := by
  rw [resolve, atPosition, FieldReader.resolve, FieldReader.locate]
  rcases position?_cases p name with
    ⟨hposition, hdeclaration⟩ | ⟨before, spec, later, hfields, hposition, hdeclaration⟩
  · simp only [hposition, hdeclaration]
    rfl
  · simp only [hposition, hdeclaration]
    exact locateAt_eq hsize hfields

/-- A field is parsed without stopping. -/
theorem parsed_eq (hsize : p.data.length + 2 < lengthBound) (name : String) :
    parsed p name = some (p.parsed name) := by
  rw [parsed, atPosition, FieldReader.parsed, FieldReader.locate]
  rcases position?_cases p name with
    ⟨hposition, hdeclaration⟩ | ⟨before, spec, later, hfields, hposition, hdeclaration⟩
  · simp only [hposition, hdeclaration]
  · simp only [hposition, hdeclaration, locateAt_eq hsize hfields, Option.bind_eq_bind,
      Option.bind_some]
    cases hl : p.locateAfter before spec with
    | error e => rfl
    | ok l => exact materialize_of_locateAfter hfields hl

/-- A field is read without stopping. -/
theorem read_eq (hsize : p.data.length + 2 < lengthBound) (request : Request) (name : String) :
    read p request name = some (p.read request name) := by
  rw [read, atPosition, FieldReader.read]
  rcases position?_cases p name with
    ⟨hposition, hdeclaration⟩ | ⟨before, spec, later, hfields, hposition, hdeclaration⟩
  · simp only [hposition, hdeclaration]
  · have hspec := FieldReader.getElem?_of_fields_eq hfields
    simp only [hposition, hdeclaration, hspec, locateAt_eq hsize hfields, Option.bind_eq_bind,
      Option.bind_some]
    by_cases haccepts : request.accepts spec.type = true
    · simp only [haccepts, if_true]
      cases hl : p.locateAfter before spec with
      | error e => rfl
      | ok l =>
        obtain ⟨hdecode, -, rfl⟩ := decode_of_locateAfter hfields hl
        simp only [Except.map, hdecode, Option.bind_some]
        cases l.decode p.settings p.data <;> rfl
    · refine (if_neg haccepts).trans ?_
      rw [if_neg haccepts]
      rfl

end Calls

/-! ## All fields -/

theorem walkFrom_located_append (settings : Settings) (data : Bytes) (earlier : List Located)
    (specs : List FieldSpec) :
    ∃ found, (walkFrom settings data earlier specs).located = earlier ++ found := by
  induction specs generalizing earlier with
  | nil => exact ⟨[], (List.append_nil _).symm⟩
  | cons spec specs ih =>
    rw [walkFrom]
    cases EventTrace.locate settings data earlier spec with
    | error e => exact ⟨[], (List.append_nil _).symm⟩
    | ok s =>
      obtain ⟨found, hfound⟩ := ih (earlier ++ [⟨spec, s⟩])
      exact ⟨⟨spec, s⟩ :: found, by rw [hfound, List.append_assoc, List.singleton_append]⟩

/-- What a reader answers for the fields that a walk looked for behind the first few. -/
def answers (p : FieldReader) (first count : Nat) (w : EventTrace.Walk) :
    List (Except ReadError ParsedField) :=
  let found := (w.located.drop first).map p.parseLocated
  match w.failure with
  | none => found
  | some e => found ++ List.replicate (count - found.length) (.error e)

theorem answers_succ {first count : Nat} {w : EventTrace.Walk} {l : Located}
    (hl : w.located[first]? = some l) :
    answers p first (count + 1) w = p.parseLocated l :: answers p (first + 1) count w := by
  rw [answers, answers, drop_eq_cons hl]
  cases w.failure with
  | none => rfl
  | some e =>
    rw [List.map_cons, List.length_cons, Nat.add_sub_add_right]
    rfl

/-- A walker behind some parts gives the answers of the reader for all fields after them. -/
theorem fieldsFrom_eq (hsize : p.data.length + 2 < lengthBound) (count : Nat) {parts : List Part}
    {rest : Bytes} (h : p.Reads parts.length parts rest)
    (hcount : p.layout.fields.length = parts.length + count) :
    fieldsFrom p (.of parts) count = some (answers p parts.length count
      (walkFrom p.settings p.data (locatedOf parts) (p.layout.fields.drop parts.length))) := by
  induction count generalizing parts rest with
  | zero =>
    have hle : p.layout.fields.length ≤ parts.length := Nat.le_of_eq hcount
    rw [List.drop_eq_nil_of_le hle, walkFrom, fieldsFrom, answers,
      List.drop_eq_nil_of_le (Nat.le_of_eq (length_locatedOf parts))]
    rfl
  | succ count ih =>
    obtain ⟨spec, hspec⟩ : ∃ spec, p.layout.fields[parts.length]? = some spec :=
      ⟨_, List.getElem?_eq_getElem (by omega)⟩
    rw [fieldsFrom, drop_eq_cons hspec, walkFrom]
    rcases step_cases hsize h hspec with ⟨e, he, hstep⟩ | ⟨part, rest', rfl, h', hok, hstep⟩
    · rw [he, hstep, answers, List.drop_eq_nil_of_le (Nat.le_of_eq (length_locatedOf parts))]
      rfl
    · have hlength : (parts ++ [part]).length = parts.length + 1 := by simp
      have hnext := ih (hlength ▸ h') (by omega)
      have hfields := fields_next h hspec
      have hafter := (FieldReader.locateAfter_eq_ok_iff hfields).2
        ⟨parts, part, rest', rfl, rfl, h'.decomposes, rfl⟩
      have hfield := materialize_of_locateAfter hfields hafter
      rw [List.length_map] at hfield
      rw [hlength] at hnext
      obtain ⟨found, hfound⟩ := walkFrom_located_append p.settings p.data
        (locatedOf (parts ++ [part])) (p.layout.fields.drop (parts.length + 1))
      have hget : (walkFrom p.settings p.data (locatedOf (parts ++ [part]))
          (p.layout.fields.drop (parts.length + 1))).located[parts.length]? =
            some ⟨part.spec, part.segmentAt (bytesOf parts).length⟩ := by
        rw [hfound, locatedOf_append_singleton, List.append_assoc,
          List.getElem?_append_right (Nat.le_of_eq (length_locatedOf parts))]
        simp
      simp only [hok, ← locatedOf_append_singleton, answers_succ hget]
      simp only [hstep, Option.bind_eq_bind, Option.bind_some, ranges_of_append,
        List.getLast?_concat, length_ranges_of, hfield, hnext]
      rfl

theorem fields_eq (hsize : p.data.length + 2 < lengthBound) : fields p = some p.fields := by
  have hreads : p.Reads ([] : List Part).length [] p.data := ⟨rfl, .nil _ _⟩
  exact fieldsFrom_eq hsize p.layout.fields.length hreads (Nat.zero_add _).symm

/-! ## Runs -/

/-- No call stops a walker, which answers what the reader answers. -/
theorem call_eq (hsize : p.data.length + 2 < lengthBound) (c : ReaderCall) :
    call p c = some (p.call c) := by
  cases c with
  | resolve name => rw [call, resolve_eq hsize]; rfl
  | read request name => rw [call, read_eq hsize]; rfl
  | parsed name => rw [call, parsed_eq hsize]; rfl
  | fields => rw [call, fields_eq hsize]; rfl

/-- No sequence of calls stops a machine, and it answers what the reader answers. -/
theorem run_eq (hsize : p.data.length + 2 < lengthBound) (calls : List ReaderCall) :
    run p calls = some (p.run calls) := by
  induction calls with
  | nil => rfl
  | cons c calls ih =>
    rw [run] at ih
    rw [run, List.mapM_cons, call_eq hsize, ih]
    rfl

/-! ## Safety -/

/-- What holds of a walker behind some fields: it is not beyond the data, what it found lies in the
data, and if the next field has its length in another one, that one was found and holds an integer. -/
structure Walker.Safe (p : FieldReader) (count : Nat) (w : Walker) : Prop where
  cursor_le : w.cursor ≤ p.data.length
  within : ∀ s ∈ w.ranges, s.Within p.data
  finds : ∀ spec reference, p.layout.fields[count]? = some spec → spec.rule = .lengthField reference →
    ∃ position s v n, p.layout.position? reference = some position ∧ w.ranges[position]? = some s ∧
      decode p position s = some (.ok v) ∧ v.integer? = some n

/-- A walker behind parts of the data is safe. -/
theorem safe_of_reads {parts : List Part} {rest : Bytes} (h : p.Reads parts.length parts rest) :
    (Walker.of parts).Safe p parts.length where
  cursor_le := by
    rw [h.decomposes.length_eq]
    exact Nat.le_add_right _ _
  within s hs := by
    obtain ⟨l, hl, rfl⟩ := List.mem_map.1 hs
    obtain ⟨before, q, after, rfl, rfl⟩ := mem_locatedFrom_iff.1 hl
    rw [Nat.zero_add]
    exact h.decomposes.within
  finds spec reference hspec hrule := by
    obtain ⟨position, s, v, n, hposition, hs, hdecode, hv, -⟩ := exists_referenced h hspec hrule
    exact ⟨position, s, v, n, hposition, hs, hdecode, hv⟩

/-- Whatever the data of a record is, no sequence of calls stops a machine that reads it: it answers
what the reader answers, its walkers stay in the data, and so do the segments that it answers, and the
data bears out every error. -/
theorem run_safe (p : FieldReader) (hsize : p.data.length + 2 < lengthBound)
    (calls : List ReaderCall) :
    run p calls = some (p.run calls) ∧
      (∀ count w, count ≤ p.layout.fields.length → walk p count = some (.ok w) → w.Safe p count) ∧
      ∀ reply ∈ p.run calls, (∀ s, reply = .segment (.ok s) → s.Within p.data) ∧
        ∀ e ∈ reply.errors, p.Justifies e := by
  refine ⟨run_eq hsize calls, fun count w hcount hw => ?_, fun reply hreply => ?_⟩
  · rcases walk_cases hsize hcount with ⟨e, -, hwalk⟩ | ⟨parts, rest, rfl, h, hwalk⟩
    · rw [hw] at hwalk
      cases hwalk
    · rw [hw] at hwalk
      cases hwalk
      exact safe_of_reads h
  · obtain ⟨c, -, rfl⟩ := List.mem_map.1 hreply
    refine ⟨fun s hs => ?_, fun e he => FieldReader.justifies_of_mem_errors he⟩
    cases c with
    | resolve name => exact FieldReader.within_of_resolve (ReaderReply.segment.inj hs)
    | read request name => cases hs
    | parsed name => cases hs
    | fields => cases hs

end

/-- A text that is said to be longer than it is. -/
theorem run_safe_counting :
    run (.counting [255, 65]) [.read .text "Name", .fields] =
      some ((FieldReader.counting [255, 65]).run [.read .text "Name", .fields]) :=
  (run_safe (.counting [255, 65]) (by decide) [.read .text "Name", .fields]).1

end EventTrace.Machine
