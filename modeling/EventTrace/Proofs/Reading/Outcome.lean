import EventTrace.Proofs.Reading.Walk

/-!
# What a look-up comes to

A field is looked up behind its predecessors, so the parts up to it settle what a look-up comes to.
Two readers of data that begins with the same parts answer alike about these parts
(`FieldReader.Reads.read_eq`), and the first field that cannot be located answers for all behind it
(`FieldReader.locate_eq_error`).
-/

namespace EventTrace.FieldReader

variable [Codecs] {p p' : FieldReader} {before after after' parts : List Part} {part : Part}
  {rest rest' : Bytes} {spec f : FieldSpec} {fields between later : List FieldSpec} {e : ReadError}
  {name : String}

/-! ## Fields that are located -/

theorem resolve_eq_ok {l : Located} (h : p.locate name = .ok l) :
    p.resolve name = .ok l.segment := by
  rw [resolve, h]
  rfl

/-- A look-up for whatever a field is answers with what the located field decodes to. -/
theorem read_any (p : FieldReader) (name : String) :
    p.read .any name =
      match p.locate name with
      | .error e => .error e
      | .ok l => (l.decode p.settings p.data).map .value := by
  rw [read, locate]
  cases p.declaration name with
  | error e => rfl
  | ok d =>
    simp only [Request.accepts, if_true]
    cases p.locateAfter d.1 d.2 with
    | error e => rfl
    | ok l =>
      cases hv : l.decode p.settings p.data <;> simp [hv, Except.map, answer, Request.extract]

/-- A declared field is located and decoded for every request that its type can answer. -/
theorem read_of_fields_eq (hfields : p.layout.fields = fields ++ f :: later) (request : Request) :
    p.read request f.name =
      if request.accepts f.type then
        match p.locate f.name with
        | .error e => .error e
        | .ok l =>
          match l.decode p.settings p.data with
          | .error e => .error e
          | .ok v => answer request l v
      else .error (mismatch f request) := by
  have hdeclaration := declaration_eq_ok_iff.2 ⟨rfl, _, hfields⟩
  by_cases haccepts : request.accepts f.type = true
  · cases hl : p.locateAfter fields f with
    | error e => simp only [read, locate, hdeclaration, if_pos haccepts, hl]
    | ok l =>
      cases hv : l.decode p.settings p.data <;>
        simp only [read, locate, hdeclaration, if_pos haccepts, hl, hv]
  · simp only [read, hdeclaration, if_neg haccepts]

/-- A part reads as whatever its value decodes to behind the parts before it. -/
theorem Reads.read_any_eq {count : Nat} (h : p.Reads count (before ++ part :: after) rest) :
    p.read .any part.spec.name =
      (decodeValue p.settings part.spec (bytesOf before).length part.value).map .value := by
  rw [read_any, h.locate_eq]
  simp only [h.decomposes.decode_eq]

/-- What is asked of a field is answered alike wherever the data begins with the same parts up to the
field. -/
theorem Reads.read_eq {count count' : Nat} (h : p.Reads count (before ++ part :: after) rest)
    (h' : p'.Reads count' (before ++ part :: after') rest') (hsettings : p.settings = p'.settings)
    (request : Request) :
    p.read request part.spec.name = p'.read request part.spec.name := by
  have hdeclaration := declaration_eq_ok_iff.2 ⟨rfl, _, h.fields_split⟩
  have hdeclaration' := declaration_eq_ok_iff.2 ⟨rfl, _, h'.fields_split⟩
  have hlocate := h.locate_eq
  have hlocate' := h'.locate_eq
  simp only [locate, hdeclaration] at hlocate
  simp only [locate, hdeclaration'] at hlocate'
  have hdecode := h.decomposes.decode_eq p'.settings
  have hdecode' := h'.decomposes.decode_eq p'.settings
  simp only [read, hdeclaration, hdeclaration', hlocate, hlocate', hdecode, hdecode', hsettings]

/-- Behind parts of the data, a field lies where it is found. -/
theorem locate_eq_ok {s : Segment} (hd : Decomposes p.settings.strict p.data parts rest)
    (hfields : p.layout.fields = parts.map Part.spec ++ spec :: later)
    (h : EventTrace.locate p.settings p.data (locatedOf parts) spec = .ok s) :
    p.locate spec.name = .ok ⟨spec, s⟩ := by
  have hwf := p.layout.wellFormed
  rw [hfields] at hwf
  have hdeclaration := declaration_eq_ok_iff.2 ⟨rfl, _, hfields⟩
  have hwalk := walk_of_decomposes hd hwf
  simp only [locate, hdeclaration, locateAfter, hwalk, h, Except.map]

/-- A record whose fields can all be located is read as parts of all of them. -/
theorem exists_reads_of_located (h : ∀ spec ∈ p.layout.fields, ∃ l, p.locate spec.name = .ok l) :
    ∃ parts rest, p.Reads p.layout.fields.length parts rest := by
  have hall : p.layout.fields = p.layout.fields ++ [] := (List.append_nil _).symm
  obtain ⟨parts, rest, ht⟩ := exists_traces p.settings p.data (hall ▸ p.layout.wellFormed)
  refine ⟨parts, rest, ?_, ht.decomposes⟩
  rw [List.take_length]
  cases hfailure : (walk p.settings p.data p.layout.fields).failure with
  | none => exact ht.complete hfailure
  | some e =>
    -- the field that stops the walk would not be located
    obtain ⟨spec, later, hfields, hlocate⟩ := ht.stopped e hfailure
    obtain ⟨l, hl⟩ := h spec (by rw [hfields]; simp)
    have hwf := p.layout.wellFormed
    rw [hfields] at hwf
    have hdeclaration := declaration_eq_ok_iff.2 ⟨rfl, _, hfields⟩
    have hwalk := walk_of_decomposes ht.decomposes hwf
    simp only [locate, hdeclaration, locateAfter, hwalk, hlocate, Except.map, reduceCtorEq] at hl

/-! ## Fields that are not -/

theorem resolve_eq_error (h : p.locate name = .error e) : p.resolve name = .error e := by
  rw [resolve, h]
  rfl

/-- Behind parts of the data, a field that cannot be located has the same error as every field behind
it. -/
theorem locate_eq_error (hd : Decomposes p.settings.strict p.data parts rest)
    (hfields : p.layout.fields = parts.map Part.spec ++ spec :: later)
    (h : EventTrace.locate p.settings p.data (locatedOf parts) spec = .error e)
    (hf : f ∈ spec :: later) : p.locate f.name = .error e := by
  have hwf := p.layout.wellFormed
  rw [hfields] at hwf
  have hwalk := walk_of_decomposes hd hwf
  rcases List.mem_cons.1 hf with rfl | hf
  · have hdeclaration := declaration_eq_ok_iff.2 ⟨rfl, _, hfields⟩
    simp only [locate, hdeclaration, locateAfter, hwalk, h, Except.map]
  · obtain ⟨between, later', rfl⟩ := List.append_of_mem hf
    have hsplit : p.layout.fields =
        (parts.map Part.spec ++ spec :: between) ++ f :: later' := by
      rw [hfields, List.append_assoc, List.cons_append]
    have hdeclaration := declaration_eq_ok_iff.2 ⟨rfl, _, hsplit⟩
    have hstop : walk p.settings p.data (parts.map Part.spec ++ spec :: between) =
        ⟨locatedOf parts, some e⟩ := by
      rw [walk] at hwalk
      rw [walk, walkFrom_append, hwalk]
      simp only [walkFrom, h]
    simp only [locate, hdeclaration, locateAfter, hstop]

omit [Codecs] in
theorem mem_of_append_singleton_eq {before after : List FieldSpec}
    (h : fields ++ [f] = before ++ spec :: after) : f ∈ spec :: after := by
  have hlast := congrArg List.getLast? h
  rw [List.getLast?_concat, List.getLast?_append_of_ne_nil _ (List.cons_ne_nil _ _)] at hlast
  exact List.mem_of_getLast? hlast.symm

omit [Codecs] in
/-- What the fields up to one are split into, all fields are. -/
theorem split_of_append_eq {all before after : List FieldSpec} (hall : all = fields ++ f :: later)
    (hspecs : fields ++ [f] = before ++ spec :: after) :
    all = before ++ spec :: (after ++ later) ∧ f ∈ spec :: (after ++ later) := by
  constructor
  · rw [hall, List.append_cons, hspecs, List.append_assoc, List.cons_append]
  · exact List.mem_append_left later (mem_of_append_singleton_eq hspecs)

/-- A field is read as a part of the data, or it has the error of the first field that cannot be
located. -/
theorem locate_cases (hfields : p.layout.fields = fields ++ f :: later) :
    (∃ parts part rest, parts.map Part.spec = fields ∧ part.spec = f ∧
      p.Reads (parts ++ [part]).length (parts ++ [part]) rest) ∨
    ∃ parts spec after rest e, fields ++ [f] = parts.map Part.spec ++ spec :: after ∧
      Decomposes p.settings.strict p.data parts rest ∧
      EventTrace.locate p.settings p.data (locatedOf parts) spec = .error e ∧
      p.locate f.name = .error e := by
  have hall := hfields
  rw [List.append_cons] at hall
  obtain ⟨parts, rest, ht⟩ := exists_traces p.settings p.data (hall ▸ p.layout.wellFormed)
  cases hfailure : (walk p.settings p.data (fields ++ [f])).failure with
  | none =>
    have hspecs := ht.complete hfailure
    rw [← hspecs] at hall
    obtain ⟨parts, last, rfl, rfl, hlast⟩ := List.map_eq_append_iff.1 hspecs
    obtain ⟨part, rfl, rfl⟩ := List.map_eq_singleton_iff.1 hlast
    exact .inl ⟨parts, part, rest, rfl, rfl, reads_of_fields_eq hall ht.decomposes⟩
  | some e =>
    obtain ⟨spec, after, hspecs, hlocate⟩ := ht.stopped e hfailure
    obtain ⟨hsplit, hf⟩ := split_of_append_eq hfields hspecs
    exact .inr ⟨parts, spec, after, rest, e, hspecs, ht.decomposes, hlocate,
      locate_eq_error ht.decomposes hsplit hlocate hf⟩

/-- A field that is resolved is read as a part of the data. -/
theorem exists_reads_of_resolve {s : Segment} (hfields : p.layout.fields = fields ++ f :: later)
    (h : p.resolve f.name = .ok s) :
    ∃ parts part rest, parts.map Part.spec = fields ∧ part.spec = f ∧
      p.Reads (parts ++ [part]).length (parts ++ [part]) rest ∧
      s = part.segmentAt (bytesOf parts).length := by
  rcases locate_cases hfields with ⟨parts, part, rest, rfl, rfl, hreads⟩ |
    ⟨parts, spec, after, rest, e, -, -, -, he⟩
  · rw [resolve_eq_ok hreads.locate_eq] at h
    exact ⟨parts, part, rest, rfl, rfl, hreads, (Except.ok.inj h).symm⟩
  · rw [resolve_eq_error he] at h
    cases h

/-- A field begins behind those before it. -/
theorem stop_le_offset {s s' : Segment}
    (hfields : p.layout.fields = (fields ++ f :: between) ++ spec :: later)
    (hf : p.resolve f.name = .ok s) (h : p.resolve spec.name = .ok s') : s.stop ≤ s'.offset := by
  obtain ⟨parts, part, rest, hspecs, rfl, hreads, rfl⟩ := exists_reads_of_resolve hfields h
  obtain ⟨front, back, rfl, -, hback⟩ := List.map_eq_append_iff.1 hspecs
  obtain ⟨q, back, rfl, rfl, -⟩ := List.map_eq_cons_iff.1 hback
  rw [List.append_assoc, List.cons_append] at hreads
  rw [resolve_eq_ok hreads.locate_eq, Except.ok.injEq] at hf
  subst hf
  rw [Part.stop_segmentAt, Part.offset_segmentAt, bytesOf_append, bytesOf_cons, List.length_append,
    List.length_append]
  omega

/-- A field that cannot be located is not read. -/
theorem read_any_eq_error (h : p.locate name = .error e) : p.read .any name = .error e := by
  rw [read_any, h]

end EventTrace.FieldReader
