import EventTrace.Proofs.Reading.Bounds
import EventTrace.Proofs.Reading.Outcome
import EventTrace.Proofs.Text.Utf16

/-!
# What fields are read as

The declared type of a field is what a request is checked against, and the only types that the reader
then meets are those that it was checked for: a field that is located decodes to a value of its declared
type, always if it is a scalar, and what a type accepts it can be turned into. So there are six reasons
for which a read fails (`FieldReader.Denial`), each with its own error, and a read fails with an error
exactly for that reason (`FieldReader.read_exact`).
-/

namespace EventTrace

/-! ## Values -/

section Values

variable [Codecs] {name : String} {offset : Nat} {raw : Bytes} {e : ReadError}

/-- Bytes before the terminator are no text exactly if the codec refuses them, and its message is
kept. -/
theorem decodeAnsi_eq_error_iff {codec : Codec} :
    decodeAnsi codec name offset raw = .error e ↔
      ∃ f, codec.decode (FieldType.ansiString.stem raw) = .error f ∧
        e = .invalidString name offset codec.name f.message := by
  rw [FieldType.stem_ansiString, decodeAnsi]
  cases codec.decode (raw.takeWhile fun b => decide (b ≠ 0)) with
  | ok s => simp
  | error f => simp [eq_comm]

omit [Codecs] in
/-- The bytes that the text of a UTF-16 string is taken from are whole units, those before the first
NUL. -/
theorem exists_stop (raw : Bytes) :
    ∃ text : Bytes, raw.take ((Utf16.unitNul? raw).getD (raw.length - raw.length % 2)) = text ∧
      text.length % 2 = 0 ∧ Utf16.units text = Utf16.units (FieldType.unicodeString.stem raw) := by
  refine ⟨_, rfl, ?_⟩
  rw [FieldType.stem_unicodeString]
  cases hnul : Utf16.unitNul? raw with
  | none =>
    rw [Option.getD_none, Option.getD_none, List.take_length, Utf16.units_take_whole, List.length_take]
    exact ⟨by omega, rfl⟩
  | some n =>
    obtain ⟨value, rest, rfl, rfl, hdvd, -⟩ := FieldType.unicodeString.exists_of_nul?_eq_some hnul
    rw [Option.getD_some, Option.getD_some, List.take_left]
    exact ⟨Nat.mod_eq_zero_of_dvd hdvd, rfl⟩

omit [Codecs] in
/-- A UTF-16 string is refused for a surrogate that is not paired, and for nothing else. -/
theorem decodeUnicode_eq_error_iff :
    decodeUnicode name offset raw = .error e ↔
      ¬Utf16.IsText (Utf16.units (FieldType.unicodeString.stem raw)) ∧
        e = .invalidString name offset unicodeEncoding Utf16.Fault.unpaired.message := by
  obtain ⟨text, htext, heven, hunits⟩ := exists_stop raw
  simp only [decodeUnicode, htext, Utf16.decode, Utf16.readUnits_eq, heven, Nat.zero_ne_one, if_false,
    ← hunits, Utf16.isText_iff]
  cases hcs : Utf16.decodeUnits (Utf16.units text) with
  | ok cs => simp [Except.map]
  | error f => simp [Except.map, Utf16.message_of_decodeUnits hcs, eq_comm]

omit [Codecs] in
theorem Scalar.type_of_ofBytes? {t : ScalarType} {s : Scalar} (h : ofBytes? t raw = some s) :
    s.type = t := by
  cases t with
  | word w =>
    simp only [ofBytes?, Option.ite_none_right_eq_some, Option.some.injEq] at h
    rw [← h.2]
    rfl
  | boolean =>
    simp only [ofBytes?, Option.ite_none_right_eq_some, Option.some.injEq] at h
    rw [← h.2]
    rfl
  | guid =>
    obtain ⟨g, -, rfl⟩ := Option.map_eq_some_iff.1 h
    rfl

/-- A value that was decoded is of the declared type. -/
theorem type_of_decodeValue {settings : Settings} {spec : FieldSpec} {v : FieldValue}
    (h : decodeValue settings spec offset raw = .ok v) : v.type = spec.type := by
  rw [decodeValue] at h
  cases ht : spec.type with
  | scalar t =>
    simp only [ht, Scalar.read, Scalar.read?] at h
    cases hs : (raw.slice? 0 t.width).bind (Scalar.ofBytes? t) with
    | none => simp [hs] at h
    | some s =>
      obtain ⟨_, -, hbytes⟩ := Option.bind_eq_some_iff.1 hs
      simp only [hs, Except.ok.injEq] at h
      rw [← h, FieldValue.type, Scalar.type_of_ofBytes? hbytes]
  | ansiString =>
    simp only [ht, decodeAnsi] at h
    split at h
    · cases h
      rfl
    · cases h
  | unicodeString =>
    simp only [ht, decodeUnicode] at h
    split at h
    · cases h
      rfl
    · cases h
  | rawBytes =>
    simp only [ht, Except.ok.injEq] at h
    rw [← h]
    rfl

end Values

/-! ## Conversions -/

/-- What a FILETIME without an instant is refused with. -/
def ConversionError.unsupported (ticks : Nat) : ConversionError :=
  .outOfRange ("FILETIME " ++ FieldValue.hexText ticks ++ " is outside the supported range")

/-- A value whose type can answer a request is turned into what was asked for, unless it is a FILETIME
that has no instant. -/
theorem Request.extract_cases {request : Request} {v : FieldValue}
    (h : request.accepts v.type = true) :
    (∃ x, request.extract v = .ok x) ∨
      ∃ w : BitVec WordType.filetime.bits, request = .instant ∧ v = .scalar (.word .filetime w) ∧
        FileTime.toInstant? w.toNat = none ∧ request.extract v = .error (.unsupported w.toNat) := by
  cases request with
  | any => exact .inl ⟨_, rfl⟩
  | scalar t =>
    obtain ⟨s, rfl⟩ : ∃ s, v = .scalar s := by
      cases v <;> simp_all [accepts, FieldValue.type]
    rw [accepts, FieldValue.type, decide_eq_true_eq, FieldType.scalar.injEq] at h
    exact .inl ⟨_, if_pos h⟩
  | bytes =>
    cases v with
    | bytes data => exact .inl ⟨_, rfl⟩
    | scalar _ | ansiString _ | unicodeString _ => simp [accepts, FieldValue.type] at h
  | text =>
    cases v with
    | ansiString s | unicodeString s => exact .inl ⟨_, rfl⟩
    | scalar _ | bytes _ => simp [accepts, FieldValue.type, FieldType.isString] at h
  | instant =>
    obtain ⟨w, rfl⟩ : ∃ w, v = .scalar (.word .filetime w) := by
      cases v with
      | scalar s =>
        cases s with
        | word t w =>
          simp only [accepts, FieldValue.type, Scalar.type, decide_eq_true_eq,
            FieldType.scalar.injEq, ScalarType.word.injEq] at h
          subst h
          exact ⟨w, rfl⟩
        | boolean _ | guid _ => simp [accepts, FieldValue.type, Scalar.type] at h
      | ansiString _ | unicodeString _ | bytes _ => simp [accepts, FieldValue.type] at h
    cases hinstant : FileTime.toInstant? w.toNat with
    | some t => exact .inl ⟨_, by simp only [extract, extractInstant, hinstant]; rfl⟩
    | none =>
      exact .inr ⟨w, rfl, rfl, hinstant, by simp only [extract, extractInstant, hinstant]; rfl⟩

/-- Whether an error says that a field cannot be located: the data is too short for it or for one before
it, or the length of one of them is none. -/
def ReadError.IsUnlocated (e : ReadError) : Prop :=
  (∃ s, e = .truncated s) ∨ ∃ field reference n, e = .lengthReference field reference n

/-! ## Declared and located fields -/

variable [Codecs]

namespace FieldReader

variable {p : FieldReader} {request : Request} {name : String} {spec : FieldSpec} {l : Located}
  {e : ReadError}

/-- A field that is located is declared, and its part of the data decodes as the field does. -/
theorem exists_part_of_locate (hl : p.locate name = .ok l) :
    l.spec ∈ p.layout.fields ∧ l.spec.name = name ∧
      ∃ (part : Part) (parts : List Part) (earlier : List FieldSpec) (rest : Bytes),
        part.spec = l.spec ∧ part.Conforms p.settings.strict parts rest ∧
        l.spec.SuitsAfter earlier ∧
        l.decode p.settings p.data = decodeValue p.settings l.spec l.segment.offset part.value := by
  obtain ⟨before, spec, later, hd, hfields, hafter⟩ := exists_of_locate_eq_ok hl
  obtain ⟨parts, part, rest, rfl, rfl, hdata, rfl⟩ := (locateAfter_eq_ok_iff hfields).1 hafter
  obtain ⟨hname, -⟩ := declaration_eq_ok_iff.1 hd
  obtain ⟨-, hconforms⟩ := Decomposes.append_singleton_iff.1 hdata
  refine ⟨?_, hname, part, parts, parts.map Part.spec, rest, rfl, hconforms,
    p.layout.wellFormed.suits hfields, hdata.decode_eq p.settings⟩
  rw [hfields]
  exact List.mem_append_right _ (.head _)

/-- A scalar that is located decodes. -/
theorem exists_scalar_of_locate (hl : p.locate name = .ok l) {t : ScalarType}
    (ht : l.spec.type = .scalar t) :
    ∃ s, s.type = t ∧ l.decode p.settings p.data = .ok (.scalar s) := by
  obtain ⟨-, -, part, parts, earlier, rest, hspec, hconforms, hsuits, hdecode⟩ :=
    exists_part_of_locate hl
  rw [← hspec] at ht hsuits hdecode
  obtain ⟨s, hs, -, hscalar⟩ := Part.exists_scalar hconforms hsuits ht
  exact ⟨s, hs, hdecode.trans (hscalar p.settings l.segment.offset)⟩

/-- A field that is not declared is not found, whatever is asked for. -/
theorem read_of_undeclared (hname : ∀ spec ∈ p.layout.fields, spec.name ≠ name) (request : Request) :
    p.read request name = .error (.fieldNotFound name p.layout.key) := by
  rw [read]
  cases hd : p.declaration name with
  | error e =>
    simp only
    rw [declaration_eq_error hd]
  | ok d =>
    obtain ⟨hspec, later, hfields⟩ := declaration_eq_ok_iff.1 hd
    refine absurd hspec (hname _ ?_)
    rw [hfields]
    exact List.mem_append_right _ (.head _)

theorem read_of_declared (hspec : spec ∈ p.layout.fields) (request : Request) :
    p.read request spec.name =
      if request.accepts spec.type then
        match p.locate spec.name with
        | .error e => .error e
        | .ok l =>
          match l.decode p.settings p.data with
          | .error e => .error e
          | .ok v => answer request l v
      else .error (mismatch spec request) := by
  obtain ⟨fields, later, hfields⟩ := List.append_of_mem hspec
  exact read_of_fields_eq hfields request

theorem read_of_locate (hl : p.locate name = .ok l) (request : Request) :
    p.read request name =
      if request.accepts l.spec.type then
        match l.decode p.settings p.data with
        | .error e => .error e
        | .ok v => answer request l v
      else .error (mismatch l.spec request) := by
  obtain ⟨hmem, hname, -⟩ := exists_part_of_locate hl
  rw [← hname, read_of_declared hmem, hname]
  simp only [hl]

omit [Codecs] in
theorem eq_of_name_eq {spec' : FieldSpec} (h : spec ∈ p.layout.fields) (h' : spec' ∈ p.layout.fields)
    (hname : spec.name = spec'.name) : spec = spec' := by
  have hfound := (Layout.findField_eq_some_iff p.layout.wellFormed.distinct).2 ⟨h, hname⟩
  have hfound' := (Layout.findField_eq_some_iff p.layout.wellFormed.distinct).2 ⟨h', rfl⟩
  exact Option.some.inj (hfound.symm.trans hfound')

/-! ## Reasons to fail -/

/-- A declared field that is not located is reported as cut off or as one whose length is none. -/
theorem isUnlocated_of_locate (hspec : spec ∈ p.layout.fields)
    (h : p.locate spec.name = .error e) : e.IsUnlocated := by
  obtain ⟨fields, later, hfields⟩ := List.append_of_mem hspec
  rcases locate_cases hfields with ⟨parts, part, rest, rfl, rfl, hreads⟩ |
    ⟨parts, f, after, rest, e', hspecs, hd, hlocate, he'⟩
  · cases h.symm.trans hreads.locate_eq
  · cases h.symm.trans he'
    obtain ⟨hsplit, -⟩ := split_of_append_eq hfields hspecs
    have hwf := p.layout.wellFormed
    rw [hsplit] at hwf
    rcases locate_eq_error_cases hd hwf hlocate with ⟨s, rfl, -⟩ | ⟨reference, n, -, -, -, rfl⟩
    · exact .inl ⟨s, rfl⟩
    · exact .inr ⟨_, _, _, rfl⟩

/-- Why a field is not read as what it was asked to be. -/
inductive Denial (p : FieldReader) (request : Request) (name : String) : ReadError → Prop
  /-- No field has the name. -/
  | undeclared (hname : ∀ spec ∈ p.layout.fields, spec.name ≠ name) :
    Denial p request name (.fieldNotFound name p.layout.key)
  /-- The declared type cannot answer the request, wherever the field lies. -/
  | mismatched {spec : FieldSpec} (hspec : spec ∈ p.layout.fields) (hname : spec.name = name)
    (haccepts : request.accepts spec.type = false) :
    Denial p request name (.typeMismatch name spec.type request.name)
  /-- The field cannot be located. -/
  | unlocated {spec : FieldSpec} {e : ReadError} (hspec : spec ∈ p.layout.fields)
    (hname : spec.name = name) (haccepts : request.accepts spec.type = true)
    (hlocate : p.locate name = .error e) : Denial p request name e
  /-- The bytes of a single-byte string are no text. -/
  | illegible {l : Located} {f : Codec.Fault} (hl : p.locate name = .ok l)
    (haccepts : request.accepts l.spec.type = true) (htype : l.spec.type = .ansiString)
    (hf : p.settings.codec.decode (FieldType.ansiString.stem (l.segment.value p.data)) = .error f) :
    Denial p request name
      (.invalidString name l.segment.offset p.settings.codec.name f.message)
  /-- The units of a UTF-16 string are no text. -/
  | unpaired {l : Located} (hl : p.locate name = .ok l)
    (haccepts : request.accepts l.spec.type = true) (htype : l.spec.type = .unicodeString)
    (hunits : ¬Utf16.IsText
      (Utf16.units (FieldType.unicodeString.stem (l.segment.value p.data)))) :
    Denial p request name
      (.invalidString name l.segment.offset unicodeEncoding Utf16.Fault.unpaired.message)
  /-- A FILETIME has no instant. -/
  | unrepresentable {l : Located} {w : BitVec WordType.filetime.bits} (hl : p.locate name = .ok l)
    (hrequest : request = .instant)
    (hv : l.decode p.settings p.data = .ok (.scalar (.word .filetime w)))
    (hinstant : FileTime.toInstant? w.toNat = none) :
    Denial p request name
      (.outOfRange name l.segment.offset request.name
        (ConversionError.unsupported w.toNat).message)

/-- A located field that does not decode is a string whose bytes are no text. -/
theorem denial_of_decode (hl : p.locate name = .ok l) (haccepts : request.accepts l.spec.type = true)
    (h : l.decode p.settings p.data = .error e) : p.Denial request name e := by
  obtain ⟨-, hname, -⟩ := exists_part_of_locate hl
  have hvalue := h
  rw [Located.decode, decodeValue, hname] at hvalue
  cases ht : l.spec.type with
  | scalar t =>
    obtain ⟨s, -, hs⟩ := exists_scalar_of_locate hl ht
    cases h.symm.trans hs
  | ansiString =>
    simp only [ht, decodeAnsi_eq_error_iff] at hvalue
    obtain ⟨f, hf, rfl⟩ := hvalue
    exact .illegible hl haccepts ht hf
  | unicodeString =>
    simp only [ht, decodeUnicode_eq_error_iff] at hvalue
    obtain ⟨hunits, rfl⟩ := hvalue
    exact .unpaired hl haccepts ht hunits
  | rawBytes =>
    simp only [ht, reduceCtorEq] at hvalue

/-- A decoded value is turned into what was asked for, unless it is a FILETIME without an instant. -/
theorem denial_of_answer {v : FieldValue} (hl : p.locate name = .ok l)
    (haccepts : request.accepts l.spec.type = true) (hv : l.decode p.settings p.data = .ok v)
    (h : answer request l v = .error e) : p.Denial request name e := by
  obtain ⟨-, hname, -⟩ := exists_part_of_locate hl
  rw [← type_of_decodeValue hv] at haccepts
  rcases Request.extract_cases haccepts with ⟨x, hx⟩ | ⟨w, hrequest, rfl, hinstant, hextract⟩
  · simp only [answer, hx, reduceCtorEq] at h
  · simp only [answer, hextract, ConversionError.unsupported, hname, Except.error.injEq] at h
    rw [← h]
    exact .unrepresentable hl hrequest hv hinstant

/-- Every refusal has its reason. -/
theorem denial_of_read (h : p.read request name = .error e) : p.Denial request name e := by
  by_cases hdeclared : ∃ spec ∈ p.layout.fields, spec.name = name
  · obtain ⟨spec, hspec, rfl⟩ := hdeclared
    rw [read_of_declared hspec] at h
    by_cases haccepts : request.accepts spec.type = true
    · rw [if_pos haccepts] at h
      cases hlocate : p.locate spec.name with
      | error e' =>
        simp only [hlocate, Except.error.injEq] at h
        exact h ▸ .unlocated hspec rfl haccepts hlocate
      | ok l =>
        obtain ⟨hmem, hname, -⟩ := exists_part_of_locate hlocate
        rw [← eq_of_name_eq hmem hspec hname] at haccepts
        cases hv : l.decode p.settings p.data with
        | error e' =>
          simp only [hlocate, hv, Except.error.injEq] at h
          exact denial_of_decode hlocate haccepts (h ▸ hv)
        | ok v =>
          simp only [hlocate, hv] at h
          exact denial_of_answer hlocate haccepts hv h
    · rw [if_neg haccepts, Except.error.injEq] at h
      exact h ▸ .mismatched hspec rfl (Bool.eq_false_iff.2 haccepts)
  · have hname : ∀ spec ∈ p.layout.fields, spec.name ≠ name := fun spec hspec h =>
      hdeclared ⟨spec, hspec, h⟩
    rw [read_of_undeclared hname, Except.error.injEq] at h
    exact h ▸ .undeclared hname

/-- Each reason to fail comes with its error. -/
theorem Denial.read_eq (h : p.Denial request name e) : p.read request name = .error e := by
  cases h with
  | undeclared hname => exact read_of_undeclared hname request
  | mismatched hspec hname haccepts =>
    subst hname
    rw [read_of_declared hspec, haccepts]
    rfl
  | unlocated hspec hname haccepts hlocate =>
    subst hname
    rw [read_of_declared hspec, if_pos haccepts, hlocate]
  | illegible hl haccepts htype hf =>
    obtain ⟨-, rfl, -⟩ := exists_part_of_locate hl
    rw [read_of_locate hl, if_pos haccepts, Located.decode, decodeValue, htype]
    simp only [decodeAnsi_eq_error_iff.2 ⟨_, hf, rfl⟩]
  | unpaired hl haccepts htype hunits =>
    obtain ⟨-, rfl, -⟩ := exists_part_of_locate hl
    rw [read_of_locate hl, if_pos haccepts, Located.decode, decodeValue, htype]
    simp only [decodeUnicode_eq_error_iff.2 ⟨hunits, rfl⟩]
  | unrepresentable hl hrequest hv hinstant =>
    obtain ⟨-, rfl, -⟩ := exists_part_of_locate hl
    subst hrequest
    have htype := type_of_decodeValue hv
    rw [read_of_locate hl, ← htype, hv]
    simp only [answer, Request.extract, Request.extractInstant, hinstant]
    rfl

/-! ## Reads -/

/-- Whether the reads of a field as something are exact: the declared type settles what can go wrong, and
each error says what did. -/
structure ReadsExactly (p : FieldReader) (request : Request) (name : String) : Prop where
  /-- A read fails with an error exactly for the reason that the error belongs to. -/
  denied : ∀ e, p.read request name = .error e ↔ p.Denial request name e
  /-- No field is found exactly if none has the name. -/
  undeclared : ∀ field key, p.read request name = .error (.fieldNotFound field key) ↔
    (∀ spec ∈ p.layout.fields, spec.name ≠ name) ∧ field = name ∧ key = p.layout.key
  /-- The type does not match exactly if it cannot answer the request, whatever the data is. -/
  mismatched : ∀ field t requested, p.read request name = .error (.typeMismatch field t requested) ↔
    ∃ spec ∈ p.layout.fields, spec.name = name ∧ request.accepts spec.type = false ∧
      field = name ∧ t = spec.type ∧ requested = request.name
  /-- A declared field that is not located has the error of a shortage or of a length. -/
  unlocated : ∀ spec ∈ p.layout.fields, ∀ e, p.locate spec.name = .error e → e.IsUnlocated
  /-- A scalar that is located decodes, and what decodes is of the declared type, so that a type which
  can answer the request is never refused behind the check. -/
  located : ∀ l, p.locate name = .ok l →
    (∀ t, l.spec.type = .scalar t → ∃ s, s.type = t ∧ l.decode p.settings p.data = .ok (.scalar s)) ∧
    ∀ v, l.decode p.settings p.data = .ok v → v.type = l.spec.type ∧
      (request.accepts l.spec.type = true → request.extract v ≠ .error .wrongVariant)
  /-- The default is taken exactly where the read fails. -/
  default : ((∃ e, p.read request name = .error e) ↔ ∀ d, p.readOr request name d = d) ∧
    ∀ d x, p.read request name = .ok x → p.readOr request name d = x

/-- Reads are exact for every layout, record and request. -/
theorem read_exact (p : FieldReader) (request : Request) (name : String) :
    p.ReadsExactly request name where
  denied e := ⟨denial_of_read, Denial.read_eq⟩
  undeclared field key := by
    constructor
    · intro h
      cases denial_of_read h with
      | undeclared hname => exact ⟨hname, rfl, rfl⟩
      | unlocated hspec hname _ hlocate =>
        subst hname
        rcases isUnlocated_of_locate hspec hlocate with ⟨_, h⟩ | ⟨_, _, _, h⟩ <;> cases h
    · rintro ⟨hname, rfl, rfl⟩
      exact read_of_undeclared hname request
  mismatched field t requested := by
    constructor
    · intro h
      cases denial_of_read h with
      | mismatched hspec hname haccepts => exact ⟨_, hspec, hname, haccepts, rfl, rfl, rfl⟩
      | unlocated hspec hname _ hlocate =>
        subst hname
        rcases isUnlocated_of_locate hspec hlocate with ⟨_, h⟩ | ⟨_, _, _, h⟩ <;> cases h
    · rintro ⟨spec, hspec, hname, haccepts, rfl, rfl, rfl⟩
      exact (Denial.mismatched hspec hname haccepts).read_eq
  unlocated spec hspec e := isUnlocated_of_locate hspec
  located l hl := by
    refine ⟨fun t => exists_scalar_of_locate hl, fun v hv => ⟨type_of_decodeValue hv, ?_⟩⟩
    intro haccepts h
    rw [← type_of_decodeValue hv] at haccepts
    rcases Request.extract_cases haccepts with ⟨x, hx⟩ | ⟨w, -, -, -, hw⟩
    · cases h.symm.trans hx
    · cases h.symm.trans hw
  default := by
    simp only [readOr]
    cases p.read request name with
    | error e => simp
    | ok x =>
      constructor
      · constructor
        · rintro ⟨e, h⟩
          cases h
        · intro h
          have hsame : Extract.text "" = .text " " := (h (.text "")).symm.trans (h (.text " "))
          exact absurd hsame (by decide)
      · intro d y h
        exact Except.ok.inj h

end FieldReader

end EventTrace
