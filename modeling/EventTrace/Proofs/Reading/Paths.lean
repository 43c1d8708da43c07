import EventTrace.Proofs.Reading.Dependence

/-!
# Ways to a field

A field may be asked for alone or among all fields, for its segment, its bytes, its value or as one
type, and every way walks through the record anew. All ways agree (`FieldReader.paths_agree`): the
fields up to the first that cannot be located are read alone as among all, and from there on every way
reports the one error of that field. Bytes that are no text concern the field that they are in and no
other.
-/

namespace EventTrace

def Layout.nameAt (l : Layout) (i : Fin l.fields.length) : String := (l.fields.get i).name

/-- Declarations of one name stand in one position. -/
theorem Layout.eq_of_name_eq (l : Layout) {f g : FieldSpec} {j k : Nat} (hf : l.fields[j]? = some f)
    (hg : l.fields[k]? = some g) (hname : f.name = g.name) : j = k := by
  have hj : j < (l.fields.map FieldSpec.name).length := by
    rw [List.length_map]
    exact (List.getElem?_eq_some_iff.1 hf).1
  refine (List.getElem?_inj hj l.wellFormed.distinct).1 ?_
  rw [List.getElem?_map, List.getElem?_map, hf, hg, Option.map_some, Option.map_some, hname]

namespace FieldReader

variable [Codecs] {p q : FieldReader} {spec f : FieldSpec} {before later : List FieldSpec}
  {parts front back : List Part} {part : Part} {rest : Bytes} {e : ReadError} {s : Segment}

/-! ## The fields of a whole record -/

/-- A declared field is one of the parts that a walk through all fields finds, or it has the error of
the field that the walk stopped at. -/
theorem locate_of_traces
    (ht : Traces p.settings p.data p.layout.fields (walk p.settings p.data p.layout.fields) parts rest)
    (hf : f ∈ p.layout.fields) :
    (∃ part ∈ parts, part.spec = f) ∨
      ∃ spec later e, p.layout.fields = parts.map Part.spec ++ spec :: later ∧ f ∈ spec :: later ∧
        EventTrace.locate p.settings p.data (locatedOf parts) spec = .error e ∧
        p.locate f.name = .error e := by
  cases hfailure : (walk p.settings p.data p.layout.fields).failure with
  | none =>
    rw [← ht.complete hfailure] at hf
    exact .inl (List.mem_map.1 hf)
  | some e =>
    obtain ⟨spec, later, hfields, hlocate⟩ := ht.stopped e hfailure
    have hmem := hf
    rw [hfields] at hmem
    rcases List.mem_append.1 hmem with hmem | hmem
    · exact .inl (List.mem_map.1 hmem)
    · exact .inr ⟨spec, later, e, hfields, hmem, hlocate,
        locate_eq_error ht.decomposes hfields hlocate hmem⟩

/-- What a walk through all fields finds is read. -/
theorem reads_of_traces
    (ht : Traces p.settings p.data p.layout.fields (walk p.settings p.data p.layout.fields) parts rest) :
    p.Reads parts.length parts rest := by
  obtain ⟨later, hfields⟩ := ht.exists_later
  exact reads_of_fields_eq hfields ht.decomposes

theorem exists_traces_fields (p : FieldReader) : ∃ parts rest,
    Traces p.settings p.data p.layout.fields (walk p.settings p.data p.layout.fields) parts rest := by
  have hwf := p.layout.wellFormed
  rw [← List.append_nil p.layout.fields] at hwf
  exact exists_traces p.settings p.data hwf

theorem parsed_eq_error {name : String} (h : p.locate name = .error e) :
    p.parsed name = .error e := by
  rw [parsed, h]

/-- Reading all fields is reading each field. -/
theorem fields_eq (p : FieldReader) : p.fields = p.layout.fields.map fun f => p.parsed f.name := by
  obtain ⟨parts, rest, ht⟩ := p.exists_traces_fields
  have hreads := reads_of_traces ht
  have hfound : (locatedOf parts).map p.parseLocated =
      (parts.map Part.spec).map fun f => p.parsed f.name := by
    rw [← map_spec_locatedFrom 0, List.map_map]
    refine List.map_congr_left fun l hl => ?_
    obtain ⟨front, part, back, rfl, rfl⟩ := mem_locatedFrom_iff.1 hl
    rw [Nat.zero_add, Function.comp_apply, parsed, hreads.locate_eq]
  cases hfailure : (walk p.settings p.data p.layout.fields).failure with
  | none =>
    rw [ht.complete hfailure] at hfound
    simp only [fields, hfailure, ht.located, hfound]
  | some e =>
    obtain ⟨spec, later, hfields, hlocate⟩ := ht.stopped e hfailure
    have hlater : (spec :: later).map (fun f => p.parsed f.name) =
        List.replicate (spec :: later).length (.error e) := by
      rw [List.map_eq_replicate_iff]
      exact fun f hf => parsed_eq_error (locate_eq_error ht.decomposes hfields hlocate hf)
    have hlength : p.layout.length - ((parts.map Part.spec).map fun f => p.parsed f.name).length =
        (spec :: later).length := by
      simp only [Layout.length, hfields, List.length_append, List.length_map]
      omega
    simp only [fields, hfailure, ht.located, hfound, hlength]
    rw [← hlater, ← List.map_append, ← hfields]

theorem getElem?_fields (p : FieldReader) (i : Fin p.layout.fields.length) :
    p.fields[i]? = some (p.parsed (p.layout.nameAt i)) := by
  simp [fields_eq, Layout.nameAt]

/-- Asking for whatever a field is, is reading the field and keeping its value. -/
theorem read_any_eq_parsed (p : FieldReader) (name : String) :
    p.read .any name = (p.parsed name).map fun f => .value f.value := by
  rw [read_any, parsed]
  cases p.locate name with
  | error e => rfl
  | ok l =>
    simp only [parseLocated]
    cases l.decode p.settings p.data <;> rfl

/-! ## Fields that are located -/

/-- A part is parsed as its bytes and what they decode to. -/
theorem Reads.parsed_eq {count : Nat} (h : p.Reads count (front ++ part :: back) rest) :
    p.parsed part.spec.name =
      (decodeValue p.settings part.spec (bytesOf front).length part.value).map
        (⟨part.spec, (bytesOf front).length, part.value, ·⟩) := by
  have hdata := h.decomposes.split_eq
  simp only [parsed, h.locate_eq, parseLocated, h.decomposes.decode_eq, Part.offset_segmentAt,
    Part.value_segmentAt hdata]
  cases decodeValue p.settings part.spec (bytesOf front).length part.value <;> rfl

omit [Codecs] in
/-- The value of a part is a slice of the data. -/
theorem Reads.slice_eq {count : Nat} (h : p.Reads count (front ++ part :: back) rest)
    (what : String) :
    p.data.slice ((bytesOf front).length + part.lead.length) part.value.length what =
      .ok part.value := by
  have hdata := h.decomposes.split_eq
  have hvalue := Part.value_segmentAt hdata
  rw [Segment.value, Part.segmentAt, Nat.add_sub_cancel_left] at hvalue
  have hle : (bytesOf front).length + part.lead.length + part.value.length ≤ p.data.length := by
    simp only [hdata, List.length_append, Part.length_bytes]
    omega
  rw [Bytes.slice, Bytes.slice?_eq_some_iff.2 ⟨hle, hvalue⟩]

/-- A part is parsed alike wherever it begins at the same offset. -/
theorem Reads.parsed_congr {count count' : Nat} {front' back' : List Part} {rest' : Bytes}
    (h : p.Reads count (front ++ part :: back) rest)
    (h' : q.Reads count' (front' ++ part :: back') rest') (hsettings : q.settings = p.settings)
    (hoffset : (bytesOf front').length = (bytesOf front).length) :
    q.parsed part.spec.name = p.parsed part.spec.name := by
  rw [h.parsed_eq, h'.parsed_eq, hsettings, hoffset]

/-- The part of a scalar decodes to what the record reads where the part begins. -/
theorem Reads.exists_readAt {count : Nat} {t : ScalarType}
    (h : p.Reads count (front ++ part :: back) rest) (ht : part.spec.type = .scalar t) :
    ∃ v, v.type = t ∧ p.record.readAt t (bytesOf front).length = .ok v ∧
      decodeValue p.settings part.spec (bytesOf front).length part.value = .ok (.scalar v) := by
  have hconforms := h.decomposes.conforms front part back rfl
  have hsuits := p.layout.wellFormed.suits h.fields_split
  obtain ⟨v, hvtype, hv, hdecode⟩ := Part.exists_scalar hconforms hsuits ht
  obtain ⟨hlead, hlength, -⟩ := Part.plain_of_scalar hconforms hsuits ht
  obtain ⟨v', hv', -, hread⟩ := Scalar.read_of_length hlength t.name
  obtain rfl : v = v' := Option.some.inj (hv.symm.trans hv')
  have hslice := h.slice_eq t.name
  rw [hlead, List.length_nil, Nat.add_zero, hlength, data] at hslice
  refine ⟨v, hvtype, ?_, hdecode p.settings _⟩
  rw [Record.readAt, hslice]
  exact hread

/-- What is parsed of a field lies where the field is resolved, and its bytes are a slice of the
data. -/
theorem resolve_of_parsed {parsed : ParsedField} (hf : f ∈ p.layout.fields)
    (h : p.parsed f.name = .ok parsed) :
    ∃ s, p.resolve f.name = .ok s ∧ s.offset = parsed.offset ∧ s.valueStart ≤ s.valueStop ∧
      p.record.bytesAt s.valueStart (s.valueStop - s.valueStart) = .ok parsed.raw := by
  obtain ⟨before, later, hfields⟩ := List.append_of_mem hf
  rcases locate_cases hfields with ⟨front, part, rest, rfl, rfl, hreads⟩ |
    ⟨_, _, _, _, e, -, -, -, he⟩
  · have hvalue := hreads.parsed_eq
    rw [h] at hvalue
    cases hdecode : decodeValue p.settings part.spec (bytesOf front).length part.value with
    | error e => simp [hdecode, Except.map] at hvalue
    | ok v =>
      rw [hdecode] at hvalue
      obtain rfl := Except.ok.inj hvalue
      refine ⟨_, resolve_eq_ok hreads.locate_eq, rfl, Nat.le_add_right _ _, ?_⟩
      simp only [Part.segmentAt, Nat.add_sub_cancel_left]
      exact hreads.slice_eq "bytes"
  · rw [parsed_eq_error he] at h
    cases h

/-- What is read of a field as its type of fixed width is what the record reads at the field's
offset. -/
theorem readAt_of_read {t : ScalarType} {x : Extract} (hf : f ∈ p.layout.fields)
    (h : p.read (.scalar t) f.name = .ok x) :
    ∃ s v, p.resolve f.name = .ok s ∧ x = .value (.scalar v) ∧
      p.record.readAt t s.offset = .ok v := by
  obtain ⟨before, later, hfields⟩ := List.append_of_mem hf
  rw [read_of_fields_eq hfields] at h
  by_cases haccepts : Request.accepts (.scalar t) f.type = true
  · rw [if_pos haccepts] at h
    rcases locate_cases hfields with ⟨front, part, rest, rfl, rfl, hreads⟩ |
      ⟨_, _, _, _, e, -, -, -, he⟩
    · have htype : part.spec.type = .scalar t := by simpa [Request.accepts] using haccepts
      obtain ⟨v, hvtype, hreadAt, hdecode⟩ := hreads.exists_readAt htype
      rw [hreads.locate_eq] at h
      simp only [hreads.decomposes.decode_eq, hdecode, answer, Request.extract, if_pos hvtype] at h
      exact ⟨_, v, resolve_eq_ok hreads.locate_eq, (Except.ok.inj h).symm, hreadAt⟩
    · rw [he] at h
      cases h
  · rw [if_neg haccepts] at h
    cases h

/-! ## Where a record stops being readable -/

/-- Whether a field, behind others that are located, is not, for some reason. -/
def StopsAt (p : FieldReader) (position : Nat) (e : ReadError) : Prop :=
  ∃ before spec later earlier, p.layout.fields = before ++ spec :: later ∧
    before.length = position ∧ walk p.settings p.data before = ⟨earlier, none⟩ ∧
    EventTrace.locate p.settings p.data earlier spec = .error e

/-- A walk stops at a position exactly if the field there is refused behind the parts before it. -/
theorem stopsAt_iff {position : Nat} :
    p.StopsAt position e ↔ ∃ parts rest spec later,
      p.layout.fields = parts.map Part.spec ++ spec :: later ∧ parts.length = position ∧
        Decomposes p.settings.strict p.data parts rest ∧
        EventTrace.locate p.settings p.data (locatedOf parts) spec = .error e := by
  constructor
  · rintro ⟨before, spec, later, earlier, hfields, rfl, hwalk, hlocate⟩
    obtain ⟨parts, rest, ht⟩ := exists_traces p.settings p.data (hfields ▸ p.layout.wellFormed)
    rw [hwalk] at ht
    obtain rfl : earlier = locatedOf parts := ht.located
    obtain rfl := ht.complete rfl
    exact ⟨parts, rest, spec, later, hfields, (List.length_map _).symm, ht.decomposes, hlocate⟩
  · rintro ⟨parts, rest, spec, later, hfields, rfl, hd, hlocate⟩
    have hwf := p.layout.wellFormed
    rw [hfields] at hwf
    exact ⟨_, spec, later, _, hfields, List.length_map _, walk_of_decomposes hd hwf, hlocate⟩

/-- The field that a record stops being readable at has the same error as every field behind it. -/
theorem StopsAt.locate_eq {position : Nat} (h : p.StopsAt position e)
    (i : Fin p.layout.fields.length) (hi : position ≤ i) :
    p.locate (p.layout.nameAt i) = .error e := by
  obtain ⟨parts, rest, spec, later, hfields, rfl, hd, hlocate⟩ := stopsAt_iff.1 h
  refine locate_eq_error (f := p.layout.fields.get i) hd hfields hlocate ?_
  have hdrop : p.layout.fields.drop parts.length = spec :: later := by
    rw [hfields, List.drop_left' (List.length_map _)]
  rw [← hdrop]
  exact List.mem_drop_iff_getElem.2 ⟨i - parts.length, by omega, by simp [Nat.add_sub_cancel' hi]⟩

/-- The fields before the one that a record stops being readable at are located. -/
theorem StopsAt.exists_resolve {position : Nat} (h : p.StopsAt position e)
    (i : Fin p.layout.fields.length) (hi : i < position) :
    ∃ s, p.resolve (p.layout.nameAt i) = .ok s := by
  obtain ⟨parts, rest, spec, later, hfields, rfl, hd, -⟩ := stopsAt_iff.1 h
  have hreads := reads_of_fields_eq hfields hd
  have hmem : p.layout.fields.get i ∈ parts.map Part.spec := by
    rw [hreads.specs]
    exact List.mem_take_iff_getElem.2 ⟨i, by omega, rfl⟩
  obtain ⟨part, hpart, hspec⟩ := List.mem_map.1 hmem
  obtain ⟨front, back, rfl⟩ := List.append_of_mem hpart
  exact ⟨_, hspec ▸ resolve_eq_ok hreads.locate_eq⟩

/-- A field cannot be located exactly if the record stops being readable at it or before it. -/
theorem resolve_eq_error_iff (i : Fin p.layout.fields.length) :
    p.resolve (p.layout.nameAt i) = .error e ↔ ∃ j ≤ i.val, p.StopsAt j e := by
  constructor
  · intro h
    have hfields : p.layout.fields =
        p.layout.fields.take i ++ p.layout.fields.get i :: p.layout.fields.drop (i + 1) := by
      simp
    rcases locate_cases hfields with ⟨parts, part, rest, -, hpart, hreads⟩ |
      ⟨parts, spec, after, rest, e', hspecs, hd, hlocate, he⟩
    · rw [Layout.nameAt, ← hpart, resolve_eq_ok hreads.locate_eq] at h
      cases h
    · rw [Layout.nameAt, resolve_eq_error he, Except.error.injEq] at h
      subst h
      have hlength := congrArg List.length hspecs
      simp only [List.length_append, List.length_take, List.length_map, List.length_cons,
        List.length_nil] at hlength
      obtain ⟨hsplit, -⟩ := split_of_append_eq hfields hspecs
      exact ⟨parts.length, by omega, stopsAt_iff.2 ⟨parts, rest, spec, _, hsplit, rfl, hd, hlocate⟩⟩
  · rintro ⟨j, hj, hstop⟩
    exact resolve_eq_error (hstop.locate_eq i hj)

/-! ## Bytes that are no text -/

/-- A field that is located but not read holds bytes that are no text. -/
theorem noText_of_parsed_eq_error (hf : f ∈ p.layout.fields) (hs : p.resolve f.name = .ok s)
    (h : p.parsed f.name = .error e) : e.IsNoText f.name s.offset ∧ f.type.isString = true := by
  obtain ⟨before, later, hfields⟩ := List.append_of_mem hf
  obtain ⟨front, part, rest, rfl, rfl, hreads, rfl⟩ := exists_reads_of_resolve hfields hs
  have hconforms := hreads.decomposes.conforms front part [] rfl
  have hsuits := p.layout.wellFormed.suits hreads.fields_split
  rw [hreads.parsed_eq] at h
  rcases hconforms.decode_cases hsuits p.settings (bytesOf front).length with
    ⟨v, hv⟩ | ⟨hstring, e', he, hv⟩
  · simp [hv, Except.map] at h
  · rw [hv] at h
    obtain rfl := Except.error.inj h
    exact ⟨he, hstring⟩

omit [Codecs] in
theorem integer?_of_isString (hstring : part.spec.type.isString = true) : part.integer? = none := by
  cases ht : part.spec.type with
  | scalar t =>
    rw [ht] at hstring
    cases hstring
  | ansiString | unicodeString | rawBytes => simp only [Part.integer?, ht]

/-- Where two records differ only in a string that lies in the same place of both, the one is read as
the parts of the other, but for that string. -/
theorem exists_exchange (r : Record) (hf : f ∈ p.layout.fields) (hstring : f.type.isString = true)
    (hs : p.resolve f.name = .ok s) (hs' : (p.withRecord r).resolve f.name = .ok s)
    (hfront : r.userData.take s.offset = p.data.take s.offset)
    (hback : r.userData.drop s.stop = p.data.drop s.stop) :
    ∃ front part part' back rest,
      Traces p.settings p.data p.layout.fields (walk p.settings p.data p.layout.fields)
        (front ++ part :: back) rest ∧
      Decomposes p.settings.strict r.userData (front ++ part' :: back) rest ∧
      part.spec = f ∧ part'.spec = f ∧ part'.bytes.length = part.bytes.length := by
  obtain ⟨parts, rest, ht⟩ := p.exists_traces_fields
  have hreads := reads_of_traces ht
  rcases locate_of_traces ht hf with ⟨part, hpart, rfl⟩ | ⟨_, _, e', -, -, -, he⟩
  · obtain ⟨front, back, rfl⟩ := List.append_of_mem hpart
    rw [resolve_eq_ok hreads.locate_eq] at hs
    obtain rfl := Except.ok.inj hs
    obtain ⟨front', part', rest', hspecs, hpart', hreads', hsegment⟩ :=
      exists_reads_of_resolve (p := p.withRecord r) hreads.fields_split hs'
    have hoffset := (congrArg Segment.offset hsegment).symm
    have hlength := (congrArg Segment.length hsegment).symm
    have hd := ht.decomposes
    rw [List.append_cons] at hd
    have hwf := p.layout.wellFormed
    rw [hreads.fields_split] at hwf
    obtain ⟨rfl, rfl⟩ := hd.of_append.eq_around hreads'.decomposes hspecs hwf hoffset hlength
      hfront hback
    obtain ⟨-, hconforms⟩ := Decomposes.append_singleton_iff.1 hreads'.decomposes
    have hinteger : part'.integer? = part.integer? := by
      rw [integer?_of_isString (hpart' ▸ hstring), integer?_of_isString hstring]
    have hexchange := ht.decomposes.exchange hpart' hinteger hlength hconforms
    have hdata : r.userData = bytesOf (front' ++ part' :: back) ++ rest :=
      hreads'.decomposes.eq.trans (by simp)
    rw [← hdata] at hexchange
    exact ⟨front', part, part', back, rest, ht, hexchange, rfl, hpart', hlength⟩
  · rw [resolve_eq_error he] at hs
    cases hs

/-- What is in a string matters to no other field, as long as the string lies in the same place. -/
theorem parsed_exchange (r : Record) (hf : f ∈ p.layout.fields) (hstring : f.type.isString = true)
    (hs : p.resolve f.name = .ok s) (hs' : (p.withRecord r).resolve f.name = .ok s)
    (hfront : r.userData.take s.offset = p.data.take s.offset)
    (hback : r.userData.drop s.stop = p.data.drop s.stop) (hspec : spec ∈ p.layout.fields)
    (hne : spec.name ≠ f.name) : (p.withRecord r).parsed spec.name = p.parsed spec.name := by
  obtain ⟨front, part, part', back, rest, ht, hd, rfl, hpart', hlength⟩ :=
    exists_exchange r hf hstring hs hs' hfront hback
  have hreads := reads_of_traces ht
  have hspecs : (front ++ part' :: back).map Part.spec = (front ++ part :: back).map Part.spec := by
    simp [hpart']
  have hreads' : (p.withRecord r).Reads (front ++ part' :: back).length (front ++ part' :: back)
      rest := by
    obtain ⟨later, hfields⟩ := ht.exists_later
    rw [← hspecs] at hfields
    exact reads_of_fields_eq (p := p.withRecord r) hfields hd
  -- both records have the same parts but for the string, and stop at the same field if at all
  rcases locate_of_traces ht hspec with ⟨q, hq, rfl⟩ |
    ⟨g, later, e, hfields, hmem, hlocate, he⟩
  · rcases List.mem_append.1 hq with hq | hq
    · obtain ⟨left, right, rfl⟩ := List.append_of_mem hq
      rw [List.append_assoc, List.cons_append] at hreads hreads'
      exact hreads.parsed_congr hreads' rfl rfl
    · rcases List.mem_cons.1 hq with rfl | hq
      · exact absurd rfl hne
      · obtain ⟨between, right, rfl⟩ := List.append_of_mem hq
        rw [← List.cons_append, ← List.append_assoc] at hreads hreads'
        have hbytes : (bytesOf (front ++ part' :: between)).length =
            (bytesOf (front ++ part :: between)).length := by
          simp only [bytesOf_append, bytesOf_cons, List.length_append, hlength]
        exact hreads.parsed_congr hreads' rfl hbytes
  · have hwf := p.layout.wellFormed
    rw [hfields] at hwf
    have hbytes : (bytesOf (front ++ part :: back)).length =
        (bytesOf (front ++ part' :: back)).length := by
      simp only [bytesOf_append, bytesOf_cons, List.length_append, hlength]
    have hinteger : part'.integer? = part.integer? := by
      rw [integer?_of_isString (hpart' ▸ hstring), integer?_of_isString hstring]
    have hcongr := locate_congr ht.decomposes hd hspecs.symm hbytes
      (Part.holds_exchange hpart' hinteger) hwf fun _ _ _ => rfl
    rw [hcongr] at hlocate
    rw [← hspecs] at hfields
    have he' := locate_eq_error (p := p.withRecord r) hd hfields hlocate hmem
    rw [parsed_eq_error he, parsed_eq_error he']

/-! ## All ways -/

/-- Whether all ways to a field, by name or by position, alone or among all fields, agree. -/
structure PathsAgree (p : FieldReader) (i : Fin p.layout.fields.length) : Prop where
  /-- Among all fields, the field is what it is alone. -/
  fields : p.fields[i]? = some (p.parsed (p.layout.nameAt i))
  /-- Its value alone is the value that is parsed. -/
  read : p.read .any (p.layout.nameAt i) =
    (p.parsed (p.layout.nameAt i)).map fun parsed => .value parsed.value
  /-- It is parsed from the bytes that it is resolved to. -/
  raw : ∀ parsed, p.parsed (p.layout.nameAt i) = .ok parsed →
    ∃ s, p.resolve (p.layout.nameAt i) = .ok s ∧ s.offset = parsed.offset ∧
      s.valueStart ≤ s.valueStop ∧
      p.record.bytesAt s.valueStart (s.valueStop - s.valueStart) = .ok parsed.raw
  /-- It is not resolved exactly if the record stops being readable at it or before it. -/
  unresolved : ∀ e, p.resolve (p.layout.nameAt i) = .error e ↔ ∃ j ≤ i.val, p.StopsAt j e
  /-- Where the record stops being readable at it, all fields before it are resolved, and this one and
  all behind it have the same error. -/
  stops : ∀ e, p.StopsAt i e →
    (∀ k < i, ∃ s, p.resolve (p.layout.nameAt k) = .ok s) ∧
      ∀ k, i ≤ k → p.fields[k]? = some (.error e)
  /-- Where it is resolved but not parsed, its bytes are no text, and this concerns no other field: each
  of those is what it is whatever other bytes the field is resolved to in the same place. -/
  noText : ∀ s e, p.resolve (p.layout.nameAt i) = .ok s →
    p.parsed (p.layout.nameAt i) = .error e →
      e.IsNoText (p.layout.nameAt i) s.offset ∧
        ∀ r : Record, r.userData.take s.offset = p.data.take s.offset →
          r.userData.drop s.stop = p.data.drop s.stop →
          (p.withRecord r).resolve (p.layout.nameAt i) = .ok s →
            ∀ k, k ≠ i.val → (p.withRecord r).fields[k]? = p.fields[k]?
  /-- As a type of fixed width, it is what the record reads at its offset. -/
  readAt : ∀ t x, p.read (.scalar t) (p.layout.nameAt i) = .ok x →
    ∃ s v, p.resolve (p.layout.nameAt i) = .ok s ∧ x = .value (.scalar v) ∧
      p.record.readAt t s.offset = .ok v

/-- All ways to a field of a record agree. -/
theorem paths_agree (p : FieldReader) (i : Fin p.layout.fields.length) : p.PathsAgree i where
  fields := p.getElem?_fields i
  read := p.read_any_eq_parsed _
  raw parsed h := resolve_of_parsed (List.get_mem _ i) h
  unresolved e := resolve_eq_error_iff i
  stops e h := by
    refine ⟨fun k hk => h.exists_resolve k hk, fun k hk => ?_⟩
    rw [p.getElem?_fields k, parsed_eq_error (h.locate_eq k hk)]
  noText s e hs he := by
    obtain ⟨hnoText, hstring⟩ := noText_of_parsed_eq_error (List.get_mem _ i) hs he
    refine ⟨hnoText, fun r hfront hback hs' k hk => ?_⟩
    rw [fields_eq, fields_eq, List.getElem?_map, List.getElem?_map]
    show (p.layout.fields[k]?).map _ = (p.layout.fields[k]?).map _
    cases hspec : p.layout.fields[k]? with
    | none => rfl
    | some spec =>
      have hne : spec.name ≠ p.layout.nameAt i := fun hname =>
        hk (p.layout.eq_of_name_eq hspec (List.getElem?_eq_getElem i.isLt) hname)
      simp only [Option.map_some]
      rw [parsed_exchange r (List.get_mem _ i) hstring hs hs' hfront hback
        (List.mem_of_getElem? hspec) hne]
  readAt t x h := readAt_of_read (List.get_mem _ i) h

end FieldReader

end EventTrace
