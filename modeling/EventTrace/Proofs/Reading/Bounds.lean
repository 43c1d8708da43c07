import EventTrace.Proofs.Reading.Walk
import EventTrace.Reading.Call

/-!
# Bounds of a reading

Whatever the data of a record is, what a reader finds lies in it, and what it refuses it refuses for a
reason that the data bears out: a shortage says how many bytes are left and asks for more, and an
unusable length is the integer that the earlier field holds (`FieldReader.Justifies`).
-/

namespace EventTrace

/-! ## Where fields lie -/

/-- Whether a segment and its value lie in some data. -/
structure Segment.Within (data : Bytes) (s : Segment) : Prop where
  offset_le : s.offset ≤ s.valueStart
  start_le : s.valueStart ≤ s.valueStop
  stop_le : s.valueStop ≤ s.stop
  le_length : s.stop ≤ data.length

/-- Every part of some data lies in it. -/
theorem Decomposes.within {strict : Bool} {data rest : Bytes} {before after : List Part} {q : Part}
    (hd : Decomposes strict data (before ++ q :: after) rest) :
    (q.segmentAt (bytesOf before).length).Within data := by
  have hlength := hd.length_eq
  simp only [bytesOf_append, bytesOf_cons, List.length_append] at hlength
  have hbytes := q.length_bytes
  refine ⟨?_, ?_, ?_, ?_⟩
  · exact Nat.le_add_right _ _
  · exact Nat.le_add_right _ _
  · simp only [Part.segmentAt, Segment.stop]
    omega
  · rw [Part.stop_segmentAt]
    omega

/-! ## Shortages -/

/-- Whether an error says truly how many bytes some data has left, and asks for more. -/
def ReadError.IsShortage (data : Bytes) (e : ReadError) : Prop :=
  ∃ s, e = .truncated s ∧ s.offset + s.available = data.length ∧ s.available < s.need

theorem ReadError.mem_toList_of?_iff {α : Type} {found : Except ReadError α} {e : ReadError} :
    e ∈ (ReadError.of? found).toList ↔ found = .error e := by
  cases found <;> simp [ReadError.of?, eq_comm]

section Shortages

variable {front rest : Bytes} {spec : FieldSpec} {e : ReadError}

theorem isShortage_append {name : String} {need : Nat} (h : rest.length < need) :
    ReadError.IsShortage (front ++ rest) (.truncated ⟨name, front.length, need, rest.length⟩) :=
  ⟨_, rfl, List.length_append.symm, h⟩

/-- A field of a fixed length is refused only where the data is too short for it. -/
theorem isShortage_of_locatePlain {length : Nat}
    (h : locatePlain (front ++ rest) spec front.length length = .error e) :
    e.IsShortage (front ++ rest) := by
  rw [locatePlain, require_append] at h
  by_cases hle : length ≤ rest.length
  · rw [if_pos hle] at h
    cases h
  · rw [if_neg hle] at h
    cases h
    exact isShortage_append (Nat.not_le.1 hle)

/-- A text is refused only where the data is too short for it or for its terminator. -/
theorem isShortage_of_locateTerminated {settings : Settings}
    (h : locateTerminated settings (front ++ rest) spec front.length = .error e) :
    e.IsShortage (front ++ rest) := by
  have hpos := spec.type.elementWidth_pos
  rw [locateTerminated_append] at h
  by_cases hnil : rest = []
  · subst hnil
    rw [if_pos rfl] at h
    cases h
    exact isShortage_append hpos
  · rw [if_neg hnil] at h
    cases hnul : spec.type.nul? rest with
    | some n =>
      rw [hnul] at h
      cases h
    | none =>
      rw [hnul] at h
      by_cases hstrict : settings.strict = true
      · rw [if_pos hstrict] at h
        cases h
        exact isShortage_append (Nat.lt_add_of_pos_right hpos)
      · rw [if_neg hstrict] at h
        cases h

/-- A counted text is refused only where the data is too short for the count or the text. -/
theorem isShortage_of_locateCounted
    (h : locateCounted (front ++ rest) spec front.length = .error e) :
    e.IsShortage (front ++ rest) := by
  rw [locateCounted_append] at h
  by_cases hshort : rest.length < 2
  · rw [if_pos hshort] at h
    cases h
    exact isShortage_append hshort
  · rw [if_neg hshort] at h
    by_cases hlt : (rest.drop 2).length < Bytes.toNatLE (rest.take 2)
    · rw [if_pos hlt] at h
      cases h
      have hsum : front.length + 2 + (rest.drop 2).length = (front ++ rest).length := by
        rw [List.length_append, List.length_drop]
        omega
      exact ⟨_, rfl, hsum, hlt⟩
    · rw [if_neg hlt] at h
      cases h

end Shortages

variable [Codecs]

/-! ## Refusals -/

section Refusals

variable {settings : Settings} {data rest : Bytes} {parts : List Part} {spec : FieldSpec}
  {later : List FieldSpec} {e : ReadError}

/-- Whether the length of a field is in another one, where it is an integer that is no length. -/
def FieldSpec.Misled (earlier : List Part) (spec : FieldSpec) (e : ReadError) : Prop :=
  ∃ reference count, spec.rule = .lengthField reference ∧ Part.Holds earlier reference count ∧
    ¬(0 ≤ count ∧ count.toNat * spec.type.elementWidth < lengthBound) ∧
    e = .lengthReference spec.name reference count

/-- Behind parts of the data, a field is refused because the data is too short for it or because its
length is none. -/
theorem locate_eq_error_cases (hd : Decomposes settings.strict data parts rest)
    (hwf : Layout.WellFormed (parts.map Part.spec ++ spec :: later))
    (h : locate settings data (locatedOf parts) spec = .error e) :
    e.IsShortage data ∨ spec.Misled parts e := by
  cases hrule : spec.rule with
  | fixed width =>
    simp only [locate, hrule, stopOf_locatedOf] at h
    exact .inl (hd.eq ▸ isShortage_of_locatePlain (hd.eq ▸ h))
  | nullTerminated =>
    simp only [locate, hrule, stopOf_locatedOf] at h
    exact .inl (hd.eq ▸ isShortage_of_locateTerminated (hd.eq ▸ h))
  | lengthField reference =>
    obtain ⟨_, _, _, count, _, _, _, hcount, _, hread⟩ := exists_reference hd hwf hrule
    simp only [locate, hrule, stopOf_locatedOf, (hread settings).2, lengthOf] at h
    by_cases hbound : 0 ≤ count ∧ count.toNat * spec.type.elementWidth < lengthBound
    · rw [if_pos hbound] at h
      exact .inl (hd.eq ▸ isShortage_of_locatePlain (hd.eq ▸ h))
    · rw [if_neg hbound] at h
      exact .inr ⟨reference, count, hrule, (hcount count).2 rfl, hbound, (Except.error.inj h).symm⟩
  | remainder => simp [locate, hrule] at h
  | counted =>
    simp only [locate, hrule, stopOf_locatedOf] at h
    exact .inl (hd.eq ▸ isShortage_of_locateCounted (hd.eq ▸ h))

/-- A length that is none is refused whatever is left of the data. -/
theorem FieldSpec.Misled.locate_eq (h : spec.Misled parts e)
    (hd : Decomposes settings.strict data parts rest)
    (hwf : Layout.WellFormed (parts.map Part.spec ++ spec :: later)) :
    locate settings data (locatedOf parts) spec = .error e := by
  obtain ⟨reference, count, hrule, hheld, hbound, rfl⟩ := h
  obtain ⟨_, _, _, count', _, _, _, hcount, _, hread⟩ := exists_reference hd hwf hrule
  obtain rfl : count = count' := (hcount count).1 hheld
  simp only [locate, hrule, (hread settings).2, lengthOf, if_neg hbound]

end Refusals

/-! ## Errors of a reader -/

namespace FieldReader

variable (p : FieldReader)

/-- Whether an integer is what a field that was located before another one holds as its length. -/
def Refers (name reference : String) (n : Int) : Prop :=
  ∃ before spec later earlier l v, p.layout.fields = before ++ spec :: later ∧ spec.name = name ∧
    spec.rule = .lengthField reference ∧ walk p.settings p.data before = ⟨earlier, none⟩ ∧
    l ∈ earlier ∧ l.spec.name = reference ∧ l.decode p.settings p.data = .ok v ∧
    v.integer? = some n ∧ (n < 0 ∨ lengthBound ≤ n.toNat * spec.type.elementWidth)

/-- Whether the data of a record bears out an error. -/
def Justifies (e : ReadError) : Prop :=
  match e with
  | .truncated s => s.offset + s.available = p.data.length ∧ s.available < s.need
  | .lengthReference name reference n => p.Refers name reference n
  | _ => True

variable {p} {before later : List FieldSpec} {spec : FieldSpec} {e : ReadError} {parts : List Part}
  {rest : Bytes}

theorem justifies_of_isShortage (h : e.IsShortage p.data) : p.Justifies e := by
  obtain ⟨s, rfl, hs⟩ := h
  exact hs

/-- Behind parts of the data, a field is refused only for a reason that the data bears out. -/
theorem justifies_of_locate_eq_error (hd : Decomposes p.settings.strict p.data parts rest)
    (hfields : p.layout.fields = parts.map Part.spec ++ spec :: later)
    (h : EventTrace.locate p.settings p.data (locatedOf parts) spec = .error e) : p.Justifies e := by
  have hwf := p.layout.wellFormed
  rw [hfields] at hwf
  rcases locate_eq_error_cases hd hwf h with hshort | ⟨reference, count, hrule, hheld, hbound, rfl⟩
  · exact justifies_of_isShortage hshort
  · obtain ⟨before, q, after, count', v, hparts, hname, hcount, hv, hread⟩ :=
      exists_reference hd hwf hrule
    obtain rfl : count = count' := (hcount count).1 hheld
    have hmem : (⟨q.spec, q.segmentAt (bytesOf before).length⟩ : Located) ∈ locatedOf parts := by
      refine mem_locatedFrom_iff.2 ⟨before, q, after, hparts, ?_⟩
      rw [Nat.zero_add]
    exact ⟨parts.map Part.spec, spec, later, locatedOf parts, _, v, hfields, rfl, hrule,
      walk_of_decomposes hd hwf, hmem, hname, (hread p.settings).1, hv, by omega⟩

/-- A part of a layout decodes, unless it is a string of bytes that are no text. -/
theorem justifies_of_decode_eq_error {strict : Bool} {after : List Part} {q : Part}
    (hd : Decomposes strict p.data (parts ++ q :: after) rest)
    (hfields : p.layout.fields = parts.map Part.spec ++ q.spec :: later)
    (h : Located.decode ⟨q.spec, q.segmentAt (bytesOf parts).length⟩ p.settings p.data = .error e) :
    p.Justifies e := by
  have hp := hd.conforms parts q after rfl
  have hs := p.layout.wellFormed.suits hfields
  rw [hd.decode_eq] at h
  rcases hp.decode_cases hs p.settings (bytesOf parts).length with
    ⟨v, hv⟩ | ⟨-, e', ⟨_, _, rfl⟩, he⟩
  · rw [h] at hv
    cases hv
  · rw [h] at he
    cases he
    trivial

/-- The data bears out the error that stops a walk. -/
theorem justifies_of_walk {specs : List FieldSpec} (hfields : p.layout.fields = specs ++ later)
    (h : (walk p.settings p.data specs).failure = some e) : p.Justifies e := by
  obtain ⟨parts, rest, ht⟩ := exists_traces p.settings p.data (hfields ▸ p.layout.wellFormed)
  obtain ⟨spec, later', rfl, hlocate⟩ := ht.stopped e h
  rw [List.append_assoc, List.cons_append] at hfields
  exact justifies_of_locate_eq_error ht.decomposes hfields hlocate

/-- The data bears out the error of a field behind its predecessors. -/
theorem justifies_of_locateAfter (hfields : p.layout.fields = before ++ spec :: later)
    (h : p.locateAfter before spec = .error e) : p.Justifies e := by
  rcases locateAfter_cases hfields with ⟨e', he', hafter⟩ | ⟨parts, rest, rfl, hd, -, hafter⟩
  · rw [h] at hafter
    cases hafter
    exact justifies_of_walk hfields he'
  · rw [h] at hafter
    refine justifies_of_locate_eq_error hd hfields ?_
    cases hlocate : EventTrace.locate p.settings p.data (locatedOf parts) spec with
    | ok s => simp [hlocate, Except.map] at hafter
    | error e' =>
      simp only [hlocate, Except.map, Except.error.injEq] at hafter
      rw [hafter]

theorem justifies_of_decode {l : Located} (hfields : p.layout.fields = before ++ spec :: later)
    (hl : p.locateAfter before spec = .ok l) (h : l.decode p.settings p.data = .error e) :
    p.Justifies e := by
  obtain ⟨parts, q, rest, rfl, rfl, hd, rfl⟩ := (locateAfter_eq_ok_iff hfields).1 hl
  exact justifies_of_decode_eq_error hd hfields h

omit [Codecs] in
theorem declaration_eq_error {name : String} (h : p.declaration name = .error e) :
    e = .fieldNotFound name p.layout.key := by
  rw [declaration] at h
  split at h
  · cases h
  · cases h
    rfl

/-- The data bears out why a field is not located. -/
theorem justifies_of_locate {name : String} (h : p.locate name = .error e) : p.Justifies e := by
  rw [locate] at h
  cases hd : p.declaration name with
  | error e' =>
    rw [hd] at h
    cases h
    rw [declaration_eq_error hd]
    trivial
  | ok d =>
    obtain ⟨before, spec⟩ := d
    obtain ⟨-, later, hfields⟩ := declaration_eq_ok_iff.1 hd
    rw [hd] at h
    exact justifies_of_locateAfter hfields h

/-- A field that is located is located behind its predecessors. -/
theorem exists_of_locate_eq_ok {name : String} {l : Located} (h : p.locate name = .ok l) :
    ∃ before spec later, p.declaration name = .ok (before, spec) ∧
      p.layout.fields = before ++ spec :: later ∧ p.locateAfter before spec = .ok l := by
  rw [locate] at h
  cases hd : p.declaration name with
  | error e =>
    rw [hd] at h
    cases h
  | ok d =>
    obtain ⟨before, spec⟩ := d
    obtain ⟨-, later, hfields⟩ := declaration_eq_ok_iff.1 hd
    rw [hd] at h
    exact ⟨before, spec, later, rfl, hfields, h⟩

/-- A field that is resolved lies in the data. -/
theorem within_of_resolve {name : String} {s : Segment} (h : p.resolve name = .ok s) :
    s.Within p.data := by
  cases hl : p.locate name with
  | error e => simp [resolve, hl, Except.map] at h
  | ok l =>
    obtain ⟨before, spec, later, -, hfields, hafter⟩ := exists_of_locate_eq_ok hl
    obtain ⟨parts, part, rest, rfl, rfl, hd, rfl⟩ := (locateAfter_eq_ok_iff hfields).1 hafter
    simp only [resolve, hl, Except.map, Except.ok.injEq] at h
    subst h
    exact hd.within

/-- The data bears out why a field is not parsed. -/
theorem justifies_of_parsed {name : String} (h : p.parsed name = .error e) : p.Justifies e := by
  rw [parsed] at h
  cases hl : p.locate name with
  | error e' =>
    rw [hl] at h
    cases h
    exact justifies_of_locate hl
  | ok l =>
    obtain ⟨before, spec, later, -, hfields, hafter⟩ := exists_of_locate_eq_ok hl
    simp only [hl, parseLocated] at h
    cases hv : l.decode p.settings p.data with
    | ok v => simp [hv] at h
    | error e' =>
      simp only [hv, Except.error.injEq] at h
      exact justifies_of_decode hfields hafter (h ▸ hv)

theorem justifies_of_answer {request : Request} {l : Located} {v : FieldValue}
    (h : answer request l v = .error e) : p.Justifies e := by
  rw [answer] at h
  split at h
  · cases h
  · cases h
    trivial
  · cases h
    trivial

/-- The data bears out why a field is not read. -/
theorem justifies_of_read {request : Request} {name : String} (h : p.read request name = .error e) :
    p.Justifies e := by
  rw [read] at h
  cases hd : p.declaration name with
  | error e' =>
    rw [hd] at h
    cases h
    rw [declaration_eq_error hd]
    trivial
  | ok d =>
    obtain ⟨before, spec⟩ := d
    obtain ⟨-, later, hfields⟩ := declaration_eq_ok_iff.1 hd
    simp only [hd] at h
    by_cases haccepts : request.accepts spec.type = true
    · rw [if_pos haccepts] at h
      cases hl : p.locateAfter before spec with
      | error e' =>
        rw [hl] at h
        cases h
        exact justifies_of_locateAfter hfields hl
      | ok l =>
        cases hv : l.decode p.settings p.data with
        | error e' =>
          simp only [hl, hv, Except.error.injEq] at h
          exact justifies_of_decode hfields hl (h ▸ hv)
        | ok v =>
          simp only [hl, hv] at h
          exact justifies_of_answer h
    · rw [if_neg haccepts] at h
      cases h
      trivial

/-- The data bears out every error in the list of all fields. -/
theorem justifies_of_mem_fields (h : .error e ∈ p.fields) : p.Justifies e := by
  have hall : p.layout.fields = p.layout.fields ++ [] := (List.append_nil _).symm
  obtain ⟨parts, rest, ht⟩ := exists_traces p.settings p.data (hall ▸ p.layout.wellFormed)
  obtain ⟨later, hfields⟩ := ht.exists_later
  have hfound : .error e ∈ (walk p.settings p.data p.layout.fields).located.map p.parseLocated →
      p.Justifies e := by
    intro hmem
    obtain ⟨l, hl, hparse⟩ := List.mem_map.1 hmem
    rw [ht.located] at hl
    obtain ⟨before, q, after, rfl, rfl⟩ := mem_locatedFrom_iff.1 hl
    rw [List.map_append, List.map_cons, List.append_assoc, List.cons_append] at hfields
    rw [parseLocated, Nat.zero_add] at hparse
    split at hparse
    · rename_i e' he
      cases hparse
      exact justifies_of_decode_eq_error ht.decomposes hfields he
    · cases hparse
  simp only [fields] at h
  split at h
  · exact hfound h
  · rename_i e' he
    rcases List.mem_append.1 h with hmem | hmem
    · exact hfound hmem
    · cases List.eq_of_mem_replicate hmem
      exact justifies_of_walk hall he

/-- Whatever a reader answers to a call, the data bears out the errors. -/
theorem justifies_of_mem_errors {c : ReaderCall} (h : e ∈ (p.call c).errors) : p.Justifies e := by
  cases c with
  | resolve name =>
    have hresolve : p.resolve name = .error e := ReadError.mem_toList_of?_iff.1 h
    cases hl : p.locate name with
    | ok l => simp [resolve, hl, Except.map] at hresolve
    | error e' =>
      simp only [resolve, hl, Except.map, Except.error.injEq] at hresolve
      exact justifies_of_locate (hresolve ▸ hl)
  | read request name => exact justifies_of_read (ReadError.mem_toList_of?_iff.1 h)
  | parsed name => exact justifies_of_parsed (ReadError.mem_toList_of?_iff.1 h)
  | fields =>
    obtain ⟨found, hfound, he⟩ := List.mem_filterMap.1 h
    rw [← Option.mem_toList, ReadError.mem_toList_of?_iff] at he
    exact justifies_of_mem_fields (he ▸ hfound)

end FieldReader

end EventTrace
