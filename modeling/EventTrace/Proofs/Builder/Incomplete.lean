import EventTrace.Proofs.Builder.Additions
import EventTrace.Proofs.Builder.RoundTrip
import EventTrace.Proofs.Reading.Outcome

/-!
# Incomplete records

A bound builder packs what it has up to its gap, the first field without a value. Where the builder
can be completed, the incomplete record is a prefix of the complete one, and a reader answers alike
about every field before the gap (`RecordBuilder.pack_incomplete_isPrefix`).
-/

namespace EventTrace

/-- The first fields of a layout are well-formed. -/
theorem Layout.WellFormed.of_append {specs later : List FieldSpec}
    (h : Layout.WellFormed (specs ++ later)) : Layout.WellFormed specs where
  distinct := by
    have hdistinct := h.distinct
    rw [List.map_append] at hdistinct
    exact hdistinct.of_append_left
  suits := by
    rintro before f after rfl
    exact h.suits (List.append_assoc _ _ _)
  last := by
    rintro before f after rfl hrule
    exact (List.append_eq_nil_iff.1 (h.last (List.append_assoc _ _ _) hrule)).1

/-- Whether a record is what another one is before some of its fields: up to where the first of them
begins, or all of it if there is none. -/
structure PackedRecord.IsPrefix [Codecs] (p q : PackedRecord) (before rest : List FieldSpec) :
    Prop where
  header : p.record.header = q.record.header
  layout : p.layout = q.layout
  stack : p.record.stack = q.record.stack
  all : rest = [] → p = q
  cut : ∀ gap ∈ rest.head?, ∀ settings, ∃ s, (q.reader settings).resolve gap.name = .ok s ∧
    p.record.userData = q.record.userData.take s.offset
  reads : ∀ spec ∈ before, ∀ settings request,
    (p.reader settings).read request spec.name = (q.reader settings).read request spec.name

namespace RecordBuilder

/-! ## Records around user data -/

section Records

variable (b : RecordBuilder) (data data' : Bytes)

theorem header_recordOf : (b.recordOf data).header = (b.recordOf data').header := by
  rw [recordOf, recordOf]
  cases b.stack <;> rfl

/-- The stack of a record is the region of the addresses given to the builder. -/
theorem stackRegion?_recordOf :
    (b.recordOf data).stackRegion? = b.stack.map Record.addressBytes := by
  rw [recordOf]
  cases b.stack with
  | none => rfl
  | some addresses => simp [Record.withStack, Record.stackRegion?]

theorem stack_recordOf : (b.recordOf data).stack = (b.recordOf data').stack := by
  rw [Record.stack, Record.stack, stackRegion?_recordOf, stackRegion?_recordOf]

end Records

section

variable [Codecs] {b b' : RecordBuilder} {mode : PackMode} {p q : PackedRecord} {layout : Layout}
  {before later : List FieldSpec} {gap : FieldSpec}

/-! ## Fields up to a gap -/

/-- Whether a builder has a value for each of some fields and none for the next, if there is one. -/
structure StopsAfter (b : RecordBuilder) (before rest : List FieldSpec) : Prop where
  supplied : ∀ spec ∈ before, (b.value? spec.name).isSome = true
  gap : ∀ spec ∈ rest.head?, b.value? spec.name = none

omit [Codecs] in
/-- The fields of a layout are those before the gap and the rest. -/
theorem exists_stopsAfter (b : RecordBuilder) (specs : List FieldSpec) :
    ∃ before rest, specs = before ++ rest ∧ b.StopsAfter before rest := by
  induction specs with
  | nil => exact ⟨[], [], rfl, by simp, by simp⟩
  | cons spec specs ih =>
    cases hv : b.value? spec.name with
    | none => exact ⟨[], spec :: specs, rfl, by simp, by simpa using hv⟩
    | some v =>
      obtain ⟨before, rest, rfl, h⟩ := ih
      refine ⟨spec :: before, rest, rfl, ?_, h.gap⟩
      rw [List.forall_mem_cons]
      exact ⟨by rw [hv]; rfl, h.supplied⟩

/-- What lies behind the gap is not encoded. -/
theorem encodeFields_append {rest : List FieldSpec} (h : b.StopsAfter before rest) :
    b.encodeFields mode (before ++ rest) = b.encodeFields mode before := by
  induction before with
  | nil =>
    cases rest with
    | nil => rfl
    | cons spec rest =>
      have hv : b.value? spec.name = none := h.gap spec rfl
      simp [encodeFields, hv]
  | cons spec before ih =>
    obtain ⟨hv, hsupplied⟩ := List.forall_mem_cons.1 h.supplied
    have hlater := ih ⟨hsupplied, h.gap⟩
    rw [List.cons_append, encodeFields, encodeFields, hlater]

/-! ## Without the check of lengths -/

omit [Codecs] in
/-- In an incomplete record a rule lets pass whatever it lets pass in any other. -/
theorem applyRule_incomplete {spec : FieldSpec} {raw data : Bytes}
    (h : b'.applyRule mode spec raw = .ok data) : b.applyRule .incomplete spec raw = .ok data := by
  unfold applyRule at h ⊢
  cases hrule : spec.rule with
  | fixed width => simpa only [hrule] using h
  | nullTerminated => simpa only [hrule] using h
  | lengthField reference =>
    simp only [hrule] at h ⊢
    split at h
    · simpa using h
    · cases h
  | remainder => simpa only [hrule] using h
  | counted => simpa only [hrule] using h

/-- A part that some builder writes is written for an incomplete record by every builder that has the
value and the codec. -/
theorem Encodes.encodeField_eq {part : Part} {v : FieldValue} {raw : Bytes}
    (h : b'.Encodes mode part v raw) (hcodec : b.codec = b'.codec) :
    b.encodeField .incomplete part.spec v = .ok part.bytes := by
  have hraw := h.encode
  rw [← hcodec] at hraw
  exact encodeField_eq_ok_iff.2 ⟨raw, hraw, h.free, applyRule_incomplete h.fits⟩

/-- Parts that a richer builder encodes are what an incomplete pack writes, where the values are
supplied. -/
theorem encodeFields_of_encodes {parts : List Part} (hcodec : b.codec = b'.codec)
    (hparts : ∀ part ∈ parts, ∃ v raw, b.value? part.spec.name = some v ∧
      b'.Encodes mode part v raw) :
    b.encodeFields .incomplete (parts.map Part.spec) = .ok (bytesOf parts) := by
  induction parts with
  | nil => rfl
  | cons part parts ih =>
    obtain ⟨⟨v, raw, hv, h⟩, hlater⟩ := List.forall_mem_cons.1 hparts
    simp only [List.map_cons, encodeFields, hv, h.encodeField_eq hcodec, ih hlater, Except.map,
      bytesOf_cons]

/-! ## Packing what there is -/

/-- What can be packed as a complete record is the same record otherwise. -/
theorem pack_incomplete_of_complete (hb : b.Reachable) (h : b.pack .complete = .ok p) :
    b.pack .incomplete = .ok p := by
  obtain ⟨-, hlayout, data, hdata, hrecord⟩ := pack_eq_ok h
  obtain ⟨parts, hspecs, hbytes, hparts⟩ := exists_encodes_of_pack hb h
  have hvalues : ∀ part ∈ parts, ∃ v raw, b.value? part.spec.name = some v ∧
      b.Encodes .complete part v raw := by
    intro part hpart
    obtain ⟨v, raw, hencodes⟩ := hparts part hpart
    exact ⟨v, raw, hencodes.value, hencodes⟩
  have hincomplete := encodeFields_of_encodes rfl hvalues
  rw [hspecs, hbytes, hrecord, userData_recordOf] at hincomplete
  rw [pack_eq (finalized_of_pack h) (by simp) hlayout hincomplete, ← hrecord]

/-- The parts of a completed record up to the gap are what the incomplete one is made of. -/
theorem encodeFields_of_completed {added : List Addition} {parts later : List Part}
    (hparts : ∀ part ∈ parts ++ later, ∃ v raw, (b.extend added).Encodes mode part v raw)
    (hstops : b.StopsAfter (parts.map Part.spec) (later.map Part.spec)) :
    b.encodeFields .incomplete ((parts ++ later).map Part.spec) = .ok (bytesOf parts) := by
  rw [List.map_append, encodeFields_append hstops]
  have hvalues : ∀ part ∈ parts, ∃ v raw, b.value? part.spec.name = some v ∧
      (b.extend added).Encodes mode part v raw := by
    intro part hpart
    obtain ⟨v, raw, h⟩ := hparts part (List.mem_append_left _ hpart)
    obtain ⟨v', hv'⟩ := Option.isSome_iff_exists.1 (hstops.supplied _ (List.mem_map_of_mem hpart))
    obtain rfl : v' = v := Option.some.inj ((value?_extend_of_some hv' added).symm.trans h.value)
    exact ⟨v', raw, hv', h⟩
  exact encodeFields_of_encodes (codec_extend b added).symm hvalues

omit [Codecs] in
theorem reads_of_decomposes {parts : List Part} {later : List FieldSpec}
    (hfields : p.layout.fields = parts.map Part.spec ++ later)
    (hdata : p.record.userData = bytesOf parts)
    (hd : ∀ strict, Decomposes strict (bytesOf parts) parts []) (settings : Settings) :
    (p.reader settings).Reads parts.length parts [] := by
  rw [← hdata] at hd
  exact FieldReader.reads_of_fields_eq hfields (hd settings.strict)

/-- Two records of one builder, one of parts and one of more parts behind these, are a prefix and the
whole. -/
theorem isPrefix_of_decomposes {parts later : List Part} (hlayout : p.layout = q.layout)
    (hspecs : (parts ++ later).map Part.spec = q.layout.fields)
    (hp : p.record = b.recordOf (bytesOf parts))
    (hq : q.record = b.recordOf (bytesOf (parts ++ later)))
    (hd : ∀ strict, Decomposes strict (bytesOf parts) parts [])
    (hd' : ∀ strict, Decomposes strict (bytesOf (parts ++ later)) (parts ++ later) []) :
    p.IsPrefix q (parts.map Part.spec) (later.map Part.spec) where
  header := by
    rw [hp, hq]
    exact header_recordOf _ _ _
  layout := hlayout
  stack := by
    rw [hp, hq]
    exact stack_recordOf _ _ _
  all := by
    intro hnone
    obtain rfl := List.map_eq_nil_iff.1 hnone
    cases p
    cases q
    simp_all
  cut := by
    intro gap hgap settings
    obtain ⟨part, later', rfl, rfl⟩ : ∃ part later', later = part :: later' ∧ part.spec = gap := by
      cases later with
      | nil => cases hgap
      | cons part later' => exact ⟨part, later', rfl, Option.some.inj hgap⟩
    have hdata : q.record.userData = bytesOf (parts ++ part :: later') := by
      rw [hq, userData_recordOf]
    have hfields := hspecs.symm.trans (List.append_nil _).symm
    have hreads := reads_of_decomposes hfields hdata hd' settings
    refine ⟨part.segmentAt (bytesOf parts).length, ?_, ?_⟩
    · rw [FieldReader.resolve, hreads.locate_eq]
      rfl
    · rw [hp, userData_recordOf, hdata, bytesOf_append, Part.offset_segmentAt, List.take_left]
  reads := by
    intro spec hspec settings request
    obtain ⟨part, hpart, rfl⟩ := List.mem_map.1 hspec
    obtain ⟨before, after, rfl⟩ := List.append_of_mem hpart
    have hdata : p.record.userData = bytesOf (before ++ part :: after) := by
      rw [hp, userData_recordOf]
    have hdata' : q.record.userData = bytesOf (before ++ part :: after ++ later) := by
      rw [hq, userData_recordOf]
    have hfields := hlayout ▸ hspecs.symm.trans (List.map_append ..)
    have hfields' := hspecs.symm.trans (List.append_nil _).symm
    have hreads := reads_of_decomposes hfields hdata hd settings
    have hreads' := reads_of_decomposes hfields' hdata' hd' settings
    rw [List.append_assoc, List.cons_append] at hreads'
    exact hreads.read_eq hreads' rfl request

/-- A bound builder that can be completed packs what it has as a prefix of the complete record, up to
its gap. -/
theorem pack_incomplete_isPrefix (hb : b.Reachable) (htarget : b.target = some layout) :
    (∀ p, b.pack .complete = .ok p → b.pack .incomplete = .ok p) ∧
    ∀ added b' q, b.addAll added = .ok b' → b'.pack .complete = .ok q →
      q.record.userData.length < lengthBound →
        ∃ before rest p, layout.fields = before ++ rest ∧ b.StopsAfter before rest ∧
          b.pack .incomplete = .ok p ∧ p.IsPrefix q before rest := by
  refine ⟨fun p h => pack_incomplete_of_complete hb h, fun added b' q hadd h hsize => ?_⟩
  have hb' := hb.addAll hadd
  obtain rfl : b' = b.extend added := addAll_eq_ok hadd
  obtain ⟨-, -, data, hdata, hrecord⟩ := pack_eq_ok h
  obtain rfl : q.layout = layout := layout_of_pack ((target_extend b added).trans htarget) h
  have hcount := countable_of_pack hb' h hsize
  obtain ⟨all, hspecs, hbytes, hparts⟩ := exists_encodes_of_pack hb' h
  obtain ⟨before, rest, hfields, hstops⟩ := exists_stopsAfter b q.layout.fields
  obtain ⟨parts, later, rfl, rfl, rfl⟩ := List.map_eq_append_iff.1 (hspecs.trans hfields)
  have hwf := q.layout.wellFormed
  rw [hfields] at hwf hcount
  have hincomplete := encodeFields_of_completed hparts hstops
  rw [hspecs] at hincomplete
  have hopen : b.finalized = false := by simpa using finalized_of_pack h
  have hpack := pack_eq hopen (by simp) (layout_of_target htarget) hincomplete
  refine ⟨_, _, _, hfields, hstops, hpack, isPrefix_of_decomposes (b := b) rfl hspecs rfl ?_ ?_ ?_⟩
  · rw [hrecord, hbytes, hrecord, userData_recordOf]
    rfl
  · exact decomposes_of_encodes hwf.of_append (fun part hpart => hparts part (by simp [hpart]))
      (fun spec hspec => hcount spec (by simp [hspec]))
  · rw [← List.map_append] at hwf hcount
    exact decomposes_of_encodes hwf hparts hcount

end

/-- A builder that lacks the field behind a text whose length is in another field. -/
def titled : RecordBuilder :=
  ((forLayout .nil ⟨⟨1, 0⟩, none, [.natural "Count" (.scalar (.word .uint8)),
    ⟨"Title", .unicodeString, .lengthField "Count"⟩, .natural "Level" (.scalar (.word .uint16))],
      rfl⟩).run [.add (.unicode "Title" "a"), .add (.scalar "Count" (.word .uint8 1)),
        .withStack [7]]).1

theorem reachable_titled : titled.Reachable := (Reachable.forLayout _ _).run _

/-- A title without its level, and the same record with it. -/
theorem pack_incomplete_isPrefix_titled :
    ∃ b q, titled.addAll [.scalar "Level" (.word .uint16 5)] = .ok b ∧ b.pack .complete = .ok q ∧
      ∃ before rest p, titled.StopsAfter before rest ∧ titled.pack .incomplete = .ok p ∧
        p.IsPrefix q before rest := by
  have hadd : titled.addAll [.scalar "Level" (.word .uint16 5)] = .ok _ := rfl
  have hpack : (titled.extend [.scalar "Level" (.word .uint16 5)]).pack .complete = .ok _ := rfl
  obtain ⟨before, rest, p, -, hstops, hincomplete, hcut⟩ :=
    (pack_incomplete_isPrefix reachable_titled rfl).2 _ _ _ hadd hpack (by decide)
  exact ⟨_, _, hadd, hpack, before, rest, p, hstops, hincomplete, hcut⟩

end RecordBuilder

end EventTrace
