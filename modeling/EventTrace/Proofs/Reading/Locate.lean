import EventTrace.Proofs.Field.Scalar
import EventTrace.Proofs.Layout.WellFormed
import EventTrace.Proofs.Reading.Grammar

/-!
# Locating one field

A field is located behind parts that were read before it: its segment is that of the one part at the
start of what is left that conforms to its rule (`locate_eq_ok_iff`). What locating reads is the rest
of the data only (`require_append`, `locateTerminated_append`, `locateCounted_append`), beside the
integer that another field holds, which it always finds (`exists_reference`).
-/

namespace EventTrace

/-! ## Parts as located fields -/

/-- The located fields of parts that stand one behind the other from an offset on. -/
def locatedFrom (start : Nat) : List Part → List Located
  | [] => []
  | p :: parts => ⟨p.spec, p.segmentAt start⟩ :: locatedFrom (start + p.bytes.length) parts

/-- The located fields of the parts of some data. -/
def locatedOf (parts : List Part) : List Located := locatedFrom 0 parts

theorem locatedFrom_append (start : Nat) (parts parts' : List Part) :
    locatedFrom start (parts ++ parts') =
      locatedFrom start parts ++ locatedFrom (start + (bytesOf parts).length) parts' := by
  induction parts generalizing start with
  | nil => rfl
  | cons p parts ih =>
    simp only [List.cons_append, locatedFrom, ih, bytesOf_cons, List.length_append, Nat.add_assoc]

theorem locatedOf_append_singleton (parts : List Part) (p : Part) :
    locatedOf (parts ++ [p]) =
      locatedOf parts ++ [⟨p.spec, p.segmentAt (bytesOf parts).length⟩] := by
  rw [locatedOf, locatedFrom_append, Nat.zero_add]
  rfl

theorem map_spec_locatedFrom (start : Nat) (parts : List Part) :
    (locatedFrom start parts).map Located.spec = parts.map Part.spec := by
  induction parts generalizing start with
  | nil => rfl
  | cons p parts ih => simp only [locatedFrom, List.map_cons, ih]

/-- A located field is one of the parts, behind the bytes of those before. -/
theorem mem_locatedFrom_iff {start : Nat} {parts : List Part} {l : Located} :
    l ∈ locatedFrom start parts ↔ ∃ before q after, parts = before ++ q :: after ∧
      l = ⟨q.spec, q.segmentAt (start + (bytesOf before).length)⟩ := by
  constructor
  · intro hl
    induction parts generalizing start with
    | nil => cases hl
    | cons p parts ih =>
      rcases List.mem_cons.1 hl with rfl | hl
      · exact ⟨[], p, parts, rfl, rfl⟩
      · obtain ⟨before, q, after, rfl, rfl⟩ := ih hl
        exact ⟨p :: before, q, after, rfl, by simp [Nat.add_assoc]⟩
  · rintro ⟨before, q, after, rfl, rfl⟩
    rw [locatedFrom_append]
    exact List.mem_append_right _ List.mem_cons_self

@[simp] theorem length_locatedOf (parts : List Part) : (locatedOf parts).length = parts.length := by
  simpa [locatedOf] using congrArg List.length (map_spec_locatedFrom 0 parts)

@[simp] theorem stopOf_locatedOf (parts : List Part) :
    stopOf (locatedOf parts) = (bytesOf parts).length := by
  rcases List.eq_nil_or_concat parts with rfl | ⟨parts, p, rfl⟩
  · rfl
  · rw [List.concat_eq_append, locatedOf_append_singleton, stopOf_append_singleton, bytesOf_append,
      List.length_append]
    simp

theorem Layout.WellFormed.distinct_parts {parts : List Part} {later : List FieldSpec}
    (hwf : Layout.WellFormed (parts.map Part.spec ++ later)) :
    (parts.map fun p => p.spec.name).Nodup := by
  have hnames := hwf.distinct
  rw [List.map_append, List.map_map] at hnames
  exact hnames.of_append_left

/-- Among distinct names, a part is found where it lies. -/
theorem find?_locatedOf {before after : List Part} {q : Part}
    (distinct : ((before ++ q :: after).map fun p => p.spec.name).Nodup) :
    (locatedOf (before ++ q :: after)).find? (·.spec.name = q.spec.name) =
      some ⟨q.spec, q.segmentAt (bytesOf before).length⟩ := by
  have hnone : (locatedOf before).find? (·.spec.name = q.spec.name) = none := by
    rw [List.find?_eq_none]
    intro l hl
    have hspec : l.spec ∈ before.map Part.spec := by
      rw [← map_spec_locatedFrom 0]
      exact List.mem_map_of_mem hl
    obtain ⟨p, hp, hpl⟩ := List.mem_map.1 hspec
    rw [List.map_append, List.nodup_append] at distinct
    have := distinct.2.2 p.spec.name (List.mem_map_of_mem hp) q.spec.name (by simp)
    simpa [← hpl] using this
  rw [locatedOf, locatedFrom_append, Nat.zero_add, List.find?_append, ← locatedOf, hnone]
  simp [locatedFrom]

/-- Parts are settled by where they are located in the data. -/
theorem eq_of_locatedFrom_eq {parts parts' : List Part} {rest rest' : Bytes} {start : Nat}
    (hbytes : bytesOf parts ++ rest = bytesOf parts' ++ rest')
    (hlocated : locatedFrom start parts = locatedFrom start parts') : parts = parts' ∧ rest = rest' := by
  induction parts generalizing start parts' with
  | nil =>
    cases parts' with
    | nil => exact ⟨rfl, hbytes⟩
    | cons p' parts' => cases hlocated
  | cons p parts ih =>
    cases parts' with
    | nil => cases hlocated
    | cons p' parts' =>
      simp only [locatedFrom, List.cons.injEq, Located.mk.injEq] at hlocated
      obtain ⟨⟨hspec, hsegment⟩, hlater⟩ := hlocated
      rw [bytesOf_cons, bytesOf_cons, List.append_assoc, List.append_assoc] at hbytes
      obtain ⟨rfl, hrest⟩ := Part.eq_of_segmentAt_eq hspec hbytes hsegment
      obtain ⟨rfl, rfl⟩ := ih hrest hlater
      exact ⟨rfl, rfl⟩

/-! ## The rest of the data -/

section Rest

variable (front rest : Bytes) (spec : FieldSpec)

/-- Behind the front, a need is met by the rest or refused with its length. -/
theorem require_append (name : String) (need : Nat) :
    require (front ++ rest) name front.length need =
      if need ≤ rest.length then .ok ()
      else .error (.truncated ⟨name, front.length, need, rest.length⟩) := by
  have hle : front.length + need ≤ front.length + rest.length ↔ need ≤ rest.length := by omega
  simp only [require, Bytes.slice, Bytes.slice?, List.length_append, hle]
  by_cases h : need ≤ rest.length
  · simp [h]
  · simp [h, Shortage.of]

/-- Behind the front, a text is located in the rest alone. -/
theorem locateTerminated_append (settings : Settings) :
    locateTerminated settings (front ++ rest) spec front.length =
      if rest = [] then
        .error (.truncated ⟨spec.name, front.length, spec.type.elementWidth, 0⟩)
      else
        match spec.type.nul? rest with
        | some n =>
          .ok ⟨front.length, n + spec.type.elementWidth, front.length, front.length + n⟩
        | none =>
          if settings.strict then
            .error (.truncated
              ⟨spec.name, front.length, rest.length + spec.type.elementWidth, rest.length⟩)
          else .ok (.whole spec.type.elementWidth front.length rest.length) := by
  simp only [locateTerminated, Shortage.of, List.length_append, Nat.add_sub_cancel_left,
    List.length_eq_zero_iff, List.drop_left]
  by_cases h : rest = []
  · simp [h]
  · refine (if_neg h).trans (Eq.trans ?_ (if_neg h).symm)
    cases spec.type.nul? rest <;> rfl

/-- Behind the front, a counted text is located in the rest alone. -/
theorem locateCounted_append :
    locateCounted (front ++ rest) spec front.length =
      if rest.length < 2 then .error (.truncated ⟨spec.name, front.length, 2, rest.length⟩)
      else if (rest.drop 2).length < (Bytes.toNatLE (rest.take 2)) then
        .error (.truncated
          ⟨spec.name, front.length + 2, (Bytes.toNatLE (rest.take 2)), (rest.drop 2).length⟩)
      else
        .ok ⟨front.length, (Bytes.toNatLE (rest.take 2)) + 2, front.length + 2, front.length + 2 +
          ((Bytes.toNatLE (rest.take 2)) - (Bytes.toNatLE (rest.take 2)) % spec.type.elementWidth)⟩ := by
  by_cases h : rest.length < 2
  · have hslice : (front ++ rest).slice? front.length 2 = none := by
      rw [Bytes.slice?, if_neg]
      rw [List.length_append]
      omega
    simp only [locateCounted, Bytes.slice, hslice, if_pos h, Shortage.of, List.length_append,
      Nat.add_sub_cancel_left]
  · have hslice : (front ++ rest).slice? front.length 2 = some (rest.take 2) := by
      rw [Bytes.slice?, if_pos, List.drop_left]
      rw [List.length_append]
      omega
    have hfront : (front ++ rest.take 2).length = front.length + 2 := by
      rw [List.length_append, List.length_take]
      omega
    have hrequire := require_append (front ++ rest.take 2) (rest.drop 2) spec.name
      (Bytes.toNatLE (rest.take 2))
    rw [List.append_assoc, List.take_append_drop, hfront] at hrequire
    simp only [locateCounted, Bytes.slice, hslice, hrequire, if_neg h, Segment.whole]
    by_cases hcount : (Bytes.toNatLE (rest.take 2)) ≤ (rest.drop 2).length
    · rw [if_pos hcount, if_neg (Nat.not_lt.2 hcount)]
    · rw [if_neg hcount, if_pos (Nat.not_le.1 hcount)]

end Rest

/-! ## Segments and parts -/

theorem segmentAt_plain (spec : FieldSpec) (value : Bytes) (offset : Nat) :
    (⟨spec, [], value, []⟩ : Part).segmentAt offset = .plain offset value.length := by
  simp [Part.segmentAt, Part.bytes, Segment.plain]

namespace Part

/-- The part of a field whose value is the whole elements of some bytes. -/
def whole (spec : FieldSpec) (lead raw : Bytes) : Part :=
  ⟨spec, lead, raw.take (raw.length - raw.length % spec.type.elementWidth),
    raw.drop (raw.length - raw.length % spec.type.elementWidth)⟩

variable (spec : FieldSpec) (lead raw : Bytes)

theorem value_append_tail_whole : (whole spec lead raw).value ++ (whole spec lead raw).tail = raw :=
  List.take_append_drop _ raw

theorem bytes_whole : (whole spec lead raw).bytes = lead ++ raw :=
  congrArg (lead ++ ·) (value_append_tail_whole spec lead raw)

theorem isWhole_whole : (whole spec lead raw).IsWhole := by
  have hlt := Nat.mod_lt raw.length spec.type.elementWidth_pos
  have hle := Nat.mod_le raw.length spec.type.elementWidth
  refine ⟨?_, ?_⟩
  · simp only [whole, List.length_take, Nat.min_eq_left (Nat.sub_le _ _)]
    exact Nat.dvd_sub_mod _
  · simp only [whole, List.length_drop]
    omega

variable {spec lead raw}

theorem IsWhole.length_value {p : Part} (h : p.IsWhole) :
    p.value.length = (p.value ++ p.tail).length -
      (p.value ++ p.tail).length % p.spec.type.elementWidth := by
  obtain ⟨k, hk⟩ := h.1
  rw [List.length_append, hk, Nat.mul_add_mod, Nat.mod_eq_of_lt h.2, Nat.add_sub_cancel]

theorem segmentAt_of_isWhole {p : Part} (h : p.IsWhole) (offset : Nat) :
    p.segmentAt offset =
      ⟨offset, p.lead.length + (p.value ++ p.tail).length, offset + p.lead.length,
        offset + p.lead.length + ((p.value ++ p.tail).length -
          (p.value ++ p.tail).length % p.spec.type.elementWidth)⟩ := by
  rw [← h.length_value, segmentAt, length_bytes, List.length_append]

end Part

/-! ## One rule at a time -/

section Rules

variable (front rest : Bytes) (spec : FieldSpec) (s : Segment)

/-- A field of a fixed length is located exactly at a part of that length. -/
theorem locatePlain_eq_ok_iff (length : Nat) :
    locatePlain (front ++ rest) spec front.length length = .ok s ↔
      ∃ (p : Part) (rest' : Bytes), p.spec = spec ∧ rest = p.bytes ++ rest' ∧
        s = p.segmentAt front.length ∧ p.lead = [] ∧ p.value.length = length ∧ p.tail = [] := by
  rw [locatePlain, require_append]
  constructor
  · intro h
    by_cases hle : length ≤ rest.length
    · rw [if_pos hle] at h
      cases h
      have htake : (rest.take length).length = length := by
        rw [List.length_take, Nat.min_eq_left hle]
      refine ⟨⟨spec, [], rest.take length, []⟩, rest.drop length, rfl, ?_, ?_, rfl, htake, rfl⟩
      · simp [Part.bytes]
      · rw [segmentAt_plain, htake]
    · rw [if_neg hle] at h
      cases h
  · rintro ⟨⟨spec, _, value, _⟩, rest', rfl, rfl, rfl, rfl, rfl, rfl⟩
    have hle : value.length ≤ (Part.bytes ⟨spec, [], value, []⟩ ++ rest').length := by
      simp [Part.bytes]
    rw [if_pos hle, segmentAt_plain]

/-- A field that takes all that is left is a part behind which there is nothing. -/
theorem eq_whole_iff :
    s = .whole spec.type.elementWidth front.length rest.length ↔
      ∃ (p : Part) (rest' : Bytes), p.spec = spec ∧ rest = p.bytes ++ rest' ∧
        s = p.segmentAt front.length ∧ p.lead = [] ∧ p.IsWhole ∧ rest' = [] := by
  constructor
  · rintro rfl
    have hwhole := Part.isWhole_whole spec [] rest
    refine ⟨Part.whole spec [] rest, [], rfl, ?_, ?_, rfl, hwhole, rfl⟩
    · rw [Part.bytes_whole, List.append_nil, List.nil_append]
    · rw [Part.segmentAt_of_isWhole hwhole, Part.value_append_tail_whole]
      simp [Part.whole, Segment.whole]
  · rintro ⟨p, rest', rfl, rfl, rfl, hlead, hwhole, rfl⟩
    rw [Part.segmentAt_of_isWhole hwhole, List.append_nil, Part.bytes, hlead]
    simp [Segment.whole]

/-- A text is located exactly at a part with a terminator, or one without it at the end of the data
where that is tolerated. -/
theorem locateTerminated_eq_ok_iff (settings : Settings) :
    locateTerminated settings (front ++ rest) spec front.length = .ok s ↔
      ∃ (p : Part) (rest' : Bytes), p.spec = spec ∧ rest = p.bytes ++ rest' ∧
        s = p.segmentAt front.length ∧ p.lead = [] ∧
          (p.IsTerminated ∨ settings.strict = false ∧ p.IsUnterminated rest') := by
  rw [locateTerminated_append]
  constructor
  · intro h
    by_cases hnil : rest = []
    · rw [if_pos hnil] at h
      cases h
    rw [if_neg hnil] at h
    cases hnul : spec.type.nul? rest with
    | some n =>
      rw [hnul] at h
      cases h
      obtain ⟨value, rest', rfl, rfl, hdvd, free⟩ := spec.type.exists_of_nul?_eq_some hnul
      refine ⟨⟨spec, [], value, spec.type.zeros⟩, rest', rfl, ?_, ?_, rfl, .inl ⟨hdvd, free, rfl⟩⟩
      · simp [Part.bytes]
      · simp [Part.segmentAt, Part.length_bytes]
    | none =>
      rw [hnul] at h
      by_cases hstrict : settings.strict = true
      · simp [hstrict] at h
      · rw [if_neg hstrict] at h
        obtain ⟨p, rest', hspec, hrest, hs, hlead, hwhole, rfl⟩ :=
          (eq_whole_iff front rest spec s).1 (Except.ok.inj h).symm
        have hraw : p.value ++ p.tail = rest := by
          rw [hrest, Part.bytes, hlead, List.append_nil, List.nil_append]
        have hfree := spec.type.nul?_eq_none_iff.1 hnul
        rw [← hraw] at hnil hfree
        rw [← hspec] at hfree
        exact ⟨p, [], hspec, hrest, hs, hlead,
          .inr ⟨by simpa using hstrict, hwhole, hnil, hfree, rfl⟩⟩
  · rintro ⟨p, rest', rfl, rfl, rfl, hlead, ⟨hdvd, free, htail⟩ | ⟨hstrict, hwhole, hne, free, rfl⟩⟩
    · have hpos := p.spec.type.elementWidth_pos
      have hbytes : p.bytes ++ rest' = p.value ++ (p.spec.type.zeros ++ rest') := by
        rw [Part.bytes, hlead, htail, List.nil_append, List.append_assoc]
      have hne : p.value ++ (p.spec.type.zeros ++ rest') ≠ [] := by
        intro h
        have := congrArg List.length h
        simp only [List.length_append, FieldType.length_zeros, List.length_nil] at this
        omega
      rw [hbytes, if_neg hne, p.spec.type.nul?_append_zeros hdvd free]
      simp [Part.segmentAt, Part.length_bytes, hlead, htail]
    · have hbytes : p.bytes ++ [] = p.value ++ p.tail := by
        rw [Part.bytes, hlead, List.append_nil, List.nil_append]
      have hs := (eq_whole_iff front (p.bytes ++ []) p.spec _).2
        ⟨p, [], rfl, rfl, rfl, hlead, hwhole, rfl⟩
      have hlenient : ¬settings.strict = true := by simp [hstrict]
      rw [hs, hbytes, if_neg hne, (p.spec.type.nul?_eq_none_iff).2 free]
      exact if_neg hlenient

/-- A counted text is located exactly at a part behind its own count. -/
theorem locateCounted_eq_ok_iff :
    locateCounted (front ++ rest) spec front.length = .ok s ↔
      ∃ (p : Part) (rest' : Bytes), p.spec = spec ∧ rest = p.bytes ++ rest' ∧
        s = p.segmentAt front.length ∧ p.lead = Bytes.ofNatLE 2 (p.value ++ p.tail).length ∧
        (p.value ++ p.tail).length < wordCount 16 ∧ p.IsWhole := by
  rw [locateCounted_append]
  constructor
  · intro h
    by_cases hshort : rest.length < 2
    · rw [if_pos hshort] at h
      cases h
    rw [if_neg hshort] at h
    by_cases hlt : (rest.drop 2).length < Bytes.toNatLE (rest.take 2)
    · rw [if_pos hlt] at h
      cases h
    rw [if_neg hlt] at h
    cases h
    have htwo : (rest.take 2).length = 2 := by
      rw [List.length_take]
      omega
    have hcount := Bytes.toNatLE_lt (rest.take 2)
    have hlead := Bytes.ofNatLE_toNatLE (rest.take 2)
    rw [htwo] at hcount hlead
    have hraw : ((rest.drop 2).take (Bytes.toNatLE (rest.take 2))).length =
        Bytes.toNatLE (rest.take 2) := by
      rw [List.length_take]
      omega
    have hwhole := Part.isWhole_whole spec (rest.take 2)
      ((rest.drop 2).take (Bytes.toNatLE (rest.take 2)))
    have hvalue := Part.value_append_tail_whole spec (rest.take 2)
      ((rest.drop 2).take (Bytes.toNatLE (rest.take 2)))
    refine ⟨_, (rest.drop 2).drop (Bytes.toNatLE (rest.take 2)), rfl, ?_, ?_, ?_, ?_, hwhole⟩
    · rw [Part.bytes_whole, List.append_assoc, List.take_append_drop, List.take_append_drop]
    · rw [Part.segmentAt_of_isWhole hwhole, hvalue, hraw]
      simp [Part.whole, htwo, Nat.add_comm]
    · rw [hvalue, hraw, hlead]
      rfl
    · rw [hvalue, hraw]
      exact hcount
  · rintro ⟨p, rest', rfl, rfl, rfl, hlead, hlt, hwhole⟩
    have htwo : p.lead.length = 2 := by rw [hlead, Bytes.length_ofNatLE]
    have hcount : Bytes.toNatLE p.lead = (p.value ++ p.tail).length := by
      rw [hlead, Bytes.toNatLE_ofNatLE, Nat.mod_eq_of_lt hlt]
    have hbytes : p.bytes ++ rest' = p.lead ++ (p.value ++ p.tail ++ rest') := by
      rw [Part.bytes, List.append_assoc]
    have htake : (p.bytes ++ rest').take 2 = p.lead := by rw [hbytes, List.take_left' htwo]
    have hdrop : (p.bytes ++ rest').drop 2 = p.value ++ p.tail ++ rest' := by
      rw [hbytes, List.drop_left' htwo]
    have hlong : ¬(p.bytes ++ rest').length < 2 := by
      rw [hbytes, List.length_append]
      omega
    have hle : ¬(p.value ++ p.tail ++ rest').length < (p.value ++ p.tail).length := by
      rw [List.length_append]
      omega
    rw [if_neg hlong, htake, hdrop, hcount, if_neg hle, Part.segmentAt_of_isWhole hwhole, htwo,
      Nat.add_comm 2]

end Rules

/-! ## Values of parts -/

/-- Whether an error says of a field at some offset that its bytes are no text. -/
def ReadError.IsNoText (name : String) (offset : Nat) (e : ReadError) : Prop :=
  ∃ encoding message, e = .invalidString name offset encoding message

variable [Codecs]

namespace Part

variable {strict : Bool} {parts : List Part} {rest : Bytes} {p : Part} {earlier : List FieldSpec}

omit [Codecs] in
/-- The part of a scalar is all value and as wide as the scalar. -/
theorem plain_of_scalar (hp : p.Conforms strict parts rest) (hs : p.spec.SuitsAfter earlier)
    {t : ScalarType} (ht : p.spec.type = .scalar t) :
    p.lead = [] ∧ p.value.length = t.width ∧ p.tail = [] := by
  have hrule : p.spec.rule = .fixed t.width := by
    rw [FieldSpec.SuitsAfter, ht] at hs
    exact hs
  rw [Conforms, hrule] at hp
  exact hp

omit [Codecs] in
/-- The part of a scalar is as wide as the scalar. -/
theorem length_of_scalar (hp : p.Conforms strict parts rest) (hs : p.spec.SuitsAfter earlier)
    {t : ScalarType} (ht : p.spec.type = .scalar t) : p.value.length = t.width :=
  (plain_of_scalar hp hs ht).2.1

/-- The part of a scalar is the scalar's bytes. -/
theorem exists_scalar (hp : p.Conforms strict parts rest) (hs : p.spec.SuitsAfter earlier)
    {t : ScalarType} (ht : p.spec.type = .scalar t) :
    ∃ s, s.type = t ∧ Scalar.ofBytes? t p.value = some s ∧
      ∀ settings offset, decodeValue settings p.spec offset p.value = .ok (.scalar s) := by
  obtain ⟨s, hs, hst, hread⟩ := Scalar.read_of_length (length_of_scalar hp hs ht) p.spec.name
  refine ⟨s, hst, hs, fun settings offset => ?_⟩
  rw [decodeValue, ht]
  simp only [hread]

/-- The part of an integer spells the integer that it decodes to. -/
theorem exists_integer? (hp : p.Conforms strict parts rest) (hs : p.spec.SuitsAfter earlier)
    (hint : p.spec.type.isIntegral = true) :
    ∃ n v, p.integer? = some n ∧ v.integer? = some n ∧
      ∀ settings offset, decodeValue settings p.spec offset p.value = .ok v := by
  obtain ⟨t, ht⟩ : ∃ t, p.spec.type = .scalar t := by
    cases hp : p.spec.type with
    | scalar t => exact ⟨t, rfl⟩
    | ansiString | unicodeString | rawBytes =>
      rw [hp] at hint
      cases hint
  rw [ht] at hint
  obtain ⟨s, rfl, hs, hdecode⟩ := exists_scalar hp hs ht
  obtain ⟨n, hn⟩ := Scalar.exists_integer? hint
  refine ⟨n, .scalar s, ?_, hn, hdecode⟩
  rw [integer?, ht]
  simp only [hs, Option.bind_some, hn]

/-- A part decodes, unless it is a string whose bytes are no text. -/
theorem Conforms.decode_cases (hp : p.Conforms strict parts rest) (hs : p.spec.SuitsAfter earlier)
    (settings : Settings) (offset : Nat) :
    (∃ v, decodeValue settings p.spec offset p.value = .ok v) ∨
      p.spec.type.isString = true ∧ ∃ e, e.IsNoText p.spec.name offset ∧
        decodeValue settings p.spec offset p.value = .error e := by
  cases ht : p.spec.type with
  | scalar t =>
    obtain ⟨s, -, -, hdecode⟩ := exists_scalar hp hs ht
    exact .inl ⟨_, hdecode settings offset⟩
  | ansiString =>
    simp only [decodeValue, ht, decodeAnsi]
    split
    · exact .inl ⟨_, rfl⟩
    · exact .inr ⟨rfl, _, ⟨_, _, rfl⟩, rfl⟩
  | unicodeString =>
    simp only [decodeValue, ht, decodeUnicode]
    split
    · exact .inl ⟨_, rfl⟩
    · exact .inr ⟨rfl, _, ⟨_, _, rfl⟩, rfl⟩
  | rawBytes => exact .inl ⟨.bytes p.value, by rw [decodeValue, ht]⟩

end Part

/-- A part among others decodes where it is located as its value does. -/
theorem Decomposes.decode_eq {strict : Bool} {data rest : Bytes} {before after : List Part} {q : Part}
    (hd : Decomposes strict data (before ++ q :: after) rest) (settings : Settings) :
    Located.decode ⟨q.spec, q.segmentAt (bytesOf before).length⟩ settings data =
      decodeValue settings q.spec (bytesOf before).length q.value := by
  rw [Located.decode, Part.value_segmentAt hd.split_eq]
  rfl

/-! ## Lengths in other fields -/

section References

variable {strict : Bool} {data rest : Bytes} {parts : List Part} {spec : FieldSpec}
  {later : List FieldSpec} {reference : String}

/-- The field that a length is in stands among the parts before, and the one integer that it spells is
the number of elements. -/
theorem exists_reference (hd : Decomposes strict data parts rest)
    (hwf : Layout.WellFormed (parts.map Part.spec ++ spec :: later))
    (hrule : spec.rule = .lengthField reference) :
    ∃ before q after count v, parts = before ++ q :: after ∧ q.spec.name = reference ∧
      (∀ n, Part.Holds parts reference n ↔ n = count) ∧ v.integer? = some count ∧
      ∀ settings,
        Located.decode ⟨q.spec, q.segmentAt (bytesOf before).length⟩ settings data = .ok v ∧
          referencedLength settings data (locatedOf parts) spec reference =
            lengthOf spec reference count := by
  obtain ⟨g, hg, rfl, hint⟩ : ∃ g ∈ parts.map Part.spec, g.name = reference ∧
      g.type.isIntegral = true := by
    have hsuits := hwf.suits rfl
    rw [FieldSpec.SuitsAfter, hrule] at hsuits
    cases hn : spec.type.naturalWidth? with
    | none => simpa [hn] using hsuits
    | some natural => simp [hn] at hsuits
  obtain ⟨q, hq, rfl⟩ := List.mem_map.1 hg
  obtain ⟨before, after, rfl⟩ := List.append_of_mem hq
  have hfields : (before ++ q :: after).map Part.spec ++ spec :: later =
      before.map Part.spec ++ q.spec :: (after.map Part.spec ++ spec :: later) := by
    simp
  obtain ⟨count, v, hcount, hv, hdecode⟩ :=
    Part.exists_integer? (hd.conforms before q after rfl) (hwf.suits hfields) hint
  refine ⟨before, q, after, count, v, rfl, rfl, fun n => ⟨?_, ?_⟩, hv, fun settings => ?_⟩
  · rintro ⟨q', hq', hname, hn⟩
    rw [List.inj_on_of_nodup_map hwf.distinct_parts hq' hq hname, hcount] at hn
    exact (Option.some.inj hn).symm
  · rintro rfl
    exact ⟨q, hq, rfl, hcount⟩
  · have hlocated := (hd.decode_eq settings).trans (hdecode settings _)
    refine ⟨hlocated, ?_⟩
    rw [referencedLength, find?_locatedOf hwf.distinct_parts]
    simp only [hlocated, hv, Option.getD_some]

end References

/-! ## Every rule -/

/-- A field is found behind the parts before it exactly if the rest of the data begins with a part of
the field that conforms to its rule, and then its segment is that of the part. -/
theorem locate_eq_ok_iff {settings : Settings} {data rest : Bytes} {parts : List Part}
    {spec : FieldSpec} {later : List FieldSpec} {s : Segment}
    (hd : Decomposes settings.strict data parts rest)
    (hwf : Layout.WellFormed (parts.map Part.spec ++ spec :: later)) :
    locate settings data (locatedOf parts) spec = .ok s ↔
      ∃ (p : Part) (rest' : Bytes), p.spec = spec ∧ rest = p.bytes ++ rest' ∧
        s = p.segmentAt (bytesOf parts).length ∧ p.Conforms settings.strict parts rest' := by
  cases hrule : spec.rule with
  | fixed width =>
    simp only [locate, hrule, stopOf_locatedOf]
    rw [hd.eq, locatePlain_eq_ok_iff]
    refine exists_congr fun p => exists_congr fun rest' => and_congr_right fun hp => ?_
    rw [Part.Conforms, hp, hrule]
  | nullTerminated =>
    simp only [locate, hrule, stopOf_locatedOf]
    rw [hd.eq, locateTerminated_eq_ok_iff]
    refine exists_congr fun p => exists_congr fun rest' => and_congr_right fun hp => ?_
    rw [Part.Conforms, hp, hrule]
  | lengthField reference =>
    obtain ⟨_, _, _, count, _, _, _, hcount, _, hlength⟩ := exists_reference hd hwf hrule
    simp only [locate, hrule, stopOf_locatedOf, (hlength settings).2, lengthOf]
    by_cases hbound : 0 ≤ count ∧ count.toNat * spec.type.elementWidth < lengthBound
    · rw [if_pos hbound, hd.eq, locatePlain_eq_ok_iff]
      refine exists_congr fun p => exists_congr fun rest' => and_congr_right fun hp => ?_
      rw [Part.Conforms, hp, hrule]
      simp [hcount, hbound, and_comm]
    · rw [if_neg hbound]
      -- no part conforms either: the reference holds no other count than this one
      simp only [reduceCtorEq, false_iff]
      rintro ⟨p, rest', hp, -, -, hconforms⟩
      rw [Part.Conforms, hp, hrule] at hconforms
      obtain ⟨-, -, count', hcount', hnonneg, hlt, -⟩ := hconforms
      rw [(hcount count').1 hcount'] at hnonneg hlt
      exact hbound ⟨hnonneg, hlt⟩
  | remainder =>
    simp only [locate, hrule, stopOf_locatedOf]
    rw [hd.length_eq, Nat.add_sub_cancel_left, Except.ok.injEq, eq_comm, eq_whole_iff]
    refine exists_congr fun p => exists_congr fun rest' => and_congr_right fun hp => ?_
    rw [Part.Conforms, hp, hrule]
  | counted =>
    simp only [locate, hrule, stopOf_locatedOf]
    rw [hd.eq, locateCounted_eq_ok_iff]
    refine exists_congr fun p => exists_congr fun rest' => and_congr_right fun hp => ?_
    rw [Part.Conforms, hp, hrule]

end EventTrace
