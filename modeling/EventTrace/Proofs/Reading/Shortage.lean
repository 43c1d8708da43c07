import EventTrace.Proofs.Reading.Outcome

/-!
# When the data is too short

A field is truncated exactly if, at or before it, there is a field for which too little data is left
behind the parts of the fields before that one (`FieldReader.read_any_truncated_iff`). How little is
too little is a matter of the length rule (`FieldSpec.Lacks`): a remainder is never too short, and no
data at all is enough for a field of no bytes.
-/

namespace EventTrace

/-- Whether what is left of some data behind earlier parts is too little for a field. -/
def FieldSpec.Lacks (strict : Bool) (earlier : List Part) (rest : Bytes) (spec : FieldSpec) : Prop :=
  match spec.rule with
  | .fixed width => rest.length < width
  | .nullTerminated => rest = [] ∨ strict = true ∧ spec.type.NulFree rest
  | .lengthField reference => ∃ count, Part.Holds earlier reference count ∧ 0 ≤ count ∧
      count.toNat * spec.type.elementWidth < lengthBound ∧
      rest.length < count.toNat * spec.type.elementWidth
  | .remainder => False
  | .counted => rest.length < 2 ∨ (rest.drop 2).length < Bytes.toNatLE (rest.take 2)

/-- Whether an answer is that the data is too short. -/
def ReadError.IsTruncated {α : Type} (found : Except ReadError α) : Prop :=
  ∃ s, found = .error (.truncated s)

/-! ## One rule at a time -/

section Rules

variable (front rest : Bytes) (spec : FieldSpec)

theorem locatePlain_truncated_iff (length : Nat) :
    ReadError.IsTruncated (locatePlain (front ++ rest) spec front.length length) ↔
      rest.length < length := by
  rw [locatePlain, require_append, ← Nat.not_le]
  by_cases hle : length ≤ rest.length <;> simp [ReadError.IsTruncated, hle]

/-- A text is cut off exactly if nothing is left, or its terminator is missing and not tolerated. -/
theorem locateTerminated_truncated_iff (settings : Settings) :
    ReadError.IsTruncated (locateTerminated settings (front ++ rest) spec front.length) ↔
      rest = [] ∨ settings.strict = true ∧ spec.type.NulFree rest := by
  rw [locateTerminated_append, ← spec.type.nul?_eq_none_iff]
  by_cases hnil : rest = []
  · simp [ReadError.IsTruncated, hnil]
  · cases hnul : spec.type.nul? rest with
    | some n => simp [ReadError.IsTruncated, hnil]
    | none => cases hstrict : settings.strict <;> simp [ReadError.IsTruncated, hnil]

/-- A counted text is cut off exactly if its count is, or fewer bytes follow than it says. -/
theorem locateCounted_truncated_iff :
    ReadError.IsTruncated (locateCounted (front ++ rest) spec front.length) ↔
      rest.length < 2 ∨ (rest.drop 2).length < Bytes.toNatLE (rest.take 2) := by
  rw [locateCounted_append]
  by_cases hshort : rest.length < 2
  · simp [ReadError.IsTruncated, hshort]
  · by_cases hlt : (rest.drop 2).length < Bytes.toNatLE (rest.take 2)
    · rw [if_neg hshort, if_pos hlt]
      exact ⟨fun _ => .inr hlt, fun _ => ⟨_, rfl⟩⟩
    · rw [if_neg hshort, if_neg hlt]
      simpa [ReadError.IsTruncated, hshort] using hlt

end Rules

/-! ## Every rule -/

variable [Codecs] {rest : Bytes} {parts : List Part} {spec f : FieldSpec}
  {before later : List FieldSpec}

/-- Behind parts of the data, a field is truncated exactly if too little is left for it. -/
theorem locate_truncated_iff {settings : Settings} {data : Bytes}
    (hd : Decomposes settings.strict data parts rest)
    (hwf : Layout.WellFormed (parts.map Part.spec ++ spec :: later)) :
    ReadError.IsTruncated (locate settings data (locatedOf parts) spec) ↔
      spec.Lacks settings.strict parts rest := by
  rw [FieldSpec.Lacks]
  cases hrule : spec.rule with
  | fixed width =>
    simp only [locate, hrule, stopOf_locatedOf]
    rw [hd.eq, locatePlain_truncated_iff]
  | nullTerminated =>
    simp only [locate, hrule, stopOf_locatedOf]
    rw [hd.eq, locateTerminated_truncated_iff]
  | lengthField reference =>
    obtain ⟨_, _, _, count, _, _, _, hcount, _, hlength⟩ := exists_reference hd hwf hrule
    simp only [locate, hrule, stopOf_locatedOf, (hlength settings).2, lengthOf, hcount,
      exists_eq_left]
    by_cases hbound : 0 ≤ count ∧ count.toNat * spec.type.elementWidth < lengthBound
    · rw [if_pos hbound, hd.eq, locatePlain_truncated_iff]
      simp [hbound]
    · -- a length that cannot be used is not a shortage
      rw [if_neg hbound]
      simp only [ReadError.IsTruncated, Except.error.injEq, reduceCtorEq, exists_false, false_iff]
      rintro ⟨hnonneg, hlt, -⟩
      exact hbound ⟨hnonneg, hlt⟩
  | remainder => simp [locate, hrule, ReadError.IsTruncated]
  | counted =>
    simp only [locate, hrule, stopOf_locatedOf]
    rw [hd.eq, locateCounted_truncated_iff]

/-- The value of a part is long enough for what it decodes to. -/
theorem Part.Conforms.not_truncated_decode {strict : Bool} {part : Part} {earlier : List FieldSpec}
    (hp : part.Conforms strict parts rest) (hs : part.spec.SuitsAfter earlier) (settings : Settings)
    (offset : Nat) :
    ¬ReadError.IsTruncated (decodeValue settings part.spec offset part.value) := by
  rintro ⟨s, h⟩
  rcases hp.decode_cases hs settings offset with ⟨v, hv⟩ | ⟨-, e, ⟨_, _, rfl⟩, he⟩
  · rw [h] at hv
    cases hv
  · rw [h] at he
    cases he

/-! ## Readers -/

namespace FieldReader

variable {p : FieldReader}

/-- Whether the data of a record ends within the first fields of its layout: one of them finds too
little behind the parts of those before it. -/
def RunsOut (p : FieldReader) (specs : List FieldSpec) : Prop :=
  ∃ parts spec later rest, specs = parts.map Part.spec ++ spec :: later ∧
    Decomposes p.settings.strict p.data parts rest ∧ spec.Lacks p.settings.strict parts rest

omit [Codecs] in
theorem RunsOut.append {specs : List FieldSpec} (h : p.RunsOut specs) (later : List FieldSpec) :
    p.RunsOut (specs ++ later) := by
  obtain ⟨parts, spec, later', rest, rfl, hd, hlacks⟩ := h
  exact ⟨parts, spec, later' ++ later, rest, by simp, hd, hlacks⟩

/-- What is read as a part of the data is not too short. -/
theorem Reads.not_truncated {count : Nat} {part : Part} (h : p.Reads count (parts ++ [part]) rest) :
    ¬ReadError.IsTruncated (p.read .any part.spec.name) := by
  have hsuits := p.layout.wellFormed.suits h.fields_split
  have hconforms := h.decomposes.conforms parts part [] rfl
  have hdecode := hconforms.not_truncated_decode hsuits p.settings (bytesOf parts).length
  rintro ⟨s, hs⟩
  rw [h.read_any_eq] at hs
  cases hv : decodeValue p.settings part.spec (bytesOf parts).length part.value with
  | ok v => simp [hv, Except.map] at hs
  | error e =>
    simp only [hv, Except.map, Except.error.injEq] at hs
    exact hdecode ⟨s, by rw [hv, hs]⟩

/-- A field is truncated exactly if the data runs out at it or before it. -/
theorem read_any_truncated_iff (hfields : p.layout.fields = before ++ f :: later) :
    ReadError.IsTruncated (p.read .any f.name) ↔ p.RunsOut (before ++ [f]) := by
  have hwf := p.layout.wellFormed
  constructor
  · intro h
    rcases locate_cases hfields with ⟨parts, part, rest, -, rfl, hreads⟩ |
      ⟨parts, spec, after, rest, e, hspecs, hd, hlocate, he⟩
    · exact absurd h hreads.not_truncated
    · obtain ⟨s, h⟩ := h
      rw [read_any_eq_error he] at h
      obtain rfl : e = .truncated s := Except.error.inj h
      rw [(split_of_append_eq hfields hspecs).1] at hwf
      exact ⟨parts, spec, after, rest, hspecs, hd, (locate_truncated_iff hd hwf).1 ⟨s, hlocate⟩⟩
  · rintro ⟨parts, spec, after, rest, hspecs, hd, hlacks⟩
    obtain ⟨hsplit, hf⟩ := split_of_append_eq hfields hspecs
    rw [hsplit] at hwf
    obtain ⟨s, hlocate⟩ := (locate_truncated_iff hd hwf).2 hlacks
    exact ⟨s, read_any_eq_error (locate_eq_error hd hsplit hlocate hf)⟩

/-- All fields from one on are truncated exactly if the data runs out at that one or before it. -/
theorem forall_truncated_iff (hfields : p.layout.fields = before ++ f :: later) :
    (∀ g ∈ f :: later, ReadError.IsTruncated (p.read .any g.name)) ↔ p.RunsOut (before ++ [f]) := by
  constructor
  · intro h
    exact (read_any_truncated_iff hfields).1 (h f List.mem_cons_self)
  · intro h g hg
    rcases List.mem_cons.1 hg with rfl | hg
    · exact (read_any_truncated_iff hfields).2 h
    · obtain ⟨between, after, rfl⟩ := List.append_of_mem hg
      have hsplit : p.layout.fields = (before ++ f :: between) ++ g :: after := by simp [hfields]
      refine (read_any_truncated_iff hsplit).2 ?_
      have hmore := h.append (between ++ [g])
      simpa using hmore

/-- Where the fields before one are read as parts of the data, the data runs out at that one exactly
if too little is left for it. -/
theorem runsOut_iff_lacks (hd : Decomposes p.settings.strict p.data parts rest)
    (hfields : p.layout.fields = parts.map Part.spec ++ f :: later) :
    p.RunsOut (parts.map Part.spec ++ [f]) ↔ f.Lacks p.settings.strict parts rest := by
  have hwf := p.layout.wellFormed
  rw [hfields] at hwf
  rw [← read_any_truncated_iff hfields, ← locate_truncated_iff hd hwf]
  cases hlocate : EventTrace.locate p.settings p.data (locatedOf parts) f with
  | error e =>
    rw [read_any_eq_error (locate_eq_error hd hfields hlocate List.mem_cons_self)]
    simp [ReadError.IsTruncated]
  | ok s =>
    obtain ⟨part, rest', rfl, rfl, rfl, hp⟩ := (locate_eq_ok_iff hd hwf).1 hlocate
    have hspecs : p.layout.fields = (parts ++ [part]).map Part.spec ++ later := by simp [hfields]
    have hreads := reads_of_fields_eq hspecs (Decomposes.append_singleton_iff.2 ⟨hd, hp⟩)
    exact iff_of_false hreads.not_truncated (by simp [ReadError.IsTruncated])

end FieldReader

end EventTrace
