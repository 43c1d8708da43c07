import EventTrace.Proofs.Reading.Dependence

/-!
# Missing terminators

A reader may insist on terminators or take a string without one to the end of the data. Taking it so
only adds answers: whatever a reader that insists comes to, short of finding too little data, the other
comes to as well (`FieldReader.read_lenient`). Where the two differ there is a field that should have
a terminator and has none, and no more than one of these, since it leaves nothing behind it.
-/

namespace EventTrace

/-- The same settings, but for whether a terminator must be there. -/
def Settings.withStrict (s : Settings) (strict : Bool) : Settings := { s with strict }

namespace FieldReader

def withStrict (p : FieldReader) (strict : Bool) : FieldReader :=
  { p with settings := p.settings.withStrict strict }

section

variable [Codecs] {p : FieldReader} {spec f : FieldSpec} {before between later : List FieldSpec}

/-- Whether a field that should have a terminator begins before the end of the data and has none in
what is left of it. -/
def LacksTerminator (p : FieldReader) (spec : FieldSpec) : Prop :=
  spec.rule = .nullTerminated ∧ ∃ s, p.resolve spec.name = .ok s ∧ s.offset < p.data.length ∧
    spec.type.NulFree (p.data.drop s.offset)

/-! ## Fields without a terminator -/

section Lacking

variable {parts : List Part} {rest : Bytes} {s s' : Segment}

/-- Where it is tolerated, a field without a terminator takes what is left behind the parts before
it. -/
theorem lacksTerminator_of_decomposes (hlenient : p.settings.strict = false)
    (hd : Decomposes p.settings.strict p.data parts rest)
    (hfields : p.layout.fields = parts.map Part.spec ++ spec :: later)
    (hrule : spec.rule = .nullTerminated) (hne : rest ≠ []) (hfree : spec.type.NulFree rest) :
    p.LacksTerminator spec := by
  have hlocate : EventTrace.locate p.settings p.data (locatedOf parts) spec =
      .ok (.whole spec.type.elementWidth (bytesOf parts).length rest.length) := by
    simp only [EventTrace.locate, hrule, stopOf_locatedOf]
    rw [hd.eq, locateTerminated_append, if_neg hne, spec.type.nul?_eq_none_iff.2 hfree, hlenient]
    rfl
  refine ⟨hrule, _, resolve_eq_ok (locate_eq_ok hd hfields hlocate), ?_, ?_⟩
  · rw [hd.length_eq]
    exact Nat.lt_add_of_pos_right (List.length_pos_iff.2 hne)
  · simpa only [hd.eq, Segment.whole, List.drop_left] using hfree

/-- A field without a terminator lies up to the end of the data. -/
theorem LacksTerminator.stop_eq (hfields : p.layout.fields = before ++ spec :: later)
    (hlacks : p.LacksTerminator spec) (h : p.resolve spec.name = .ok s) : s.stop = p.data.length := by
  obtain ⟨hrule, s', hs', hlt, hfree⟩ := hlacks
  obtain rfl : s = s' := Except.ok.inj (h.symm.trans hs')
  obtain ⟨parts, part, rest, rfl, rfl, hreads, rfl⟩ := exists_reads_of_resolve hfields h
  have hd := hreads.decomposes
  have hconforms := hd.conforms parts part [] rfl
  simp only [Part.Conforms, hrule] at hconforms
  obtain ⟨hlead, ⟨hwhole, hvalue, htail⟩ | ⟨-, -, -, -, hrest⟩⟩ := hconforms
  · -- a terminator would be found in what is left
    rw [hd.eq, Part.offset_segmentAt, bytesOf_append, List.append_assoc, List.drop_left] at hfree
    have hnul := part.spec.type.nul?_append_zeros hwhole hvalue rest
    rw [← part.spec.type.nul?_eq_none_iff] at hfree
    simp [Part.bytes, hlead, htail, hnul] at hfree
  · rw [bytesOf_nil, List.nil_append] at hrest
    rw [hd.length_eq, Part.stop_segmentAt, bytesOf_append, List.length_append, hrest]
    simp

/-- What lies behind a field without a terminator is empty. -/
theorem LacksTerminator.length_eq_zero
    (hfields : p.layout.fields = (before ++ spec :: between) ++ f :: later)
    (hlacks : p.LacksTerminator spec) (h : p.resolve f.name = .ok s) : s.length = 0 := by
  have hspec : p.layout.fields = before ++ spec :: (between ++ f :: later) := by
    rw [hfields, List.append_assoc, List.cons_append]
  obtain ⟨-, s', hs', -, -⟩ := id hlacks
  have hstop := hlacks.stop_eq hspec hs'
  have hbehind := stop_le_offset hfields hs' h
  have hwithin := (within_of_resolve h).le_length
  rw [Segment.stop] at hwithin
  omega

/-- No two fields of a record lack a terminator. -/
theorem LacksTerminator.not_behind
    (hfields : p.layout.fields = (before ++ spec :: between) ++ f :: later)
    (hlacks : p.LacksTerminator spec) : ¬p.LacksTerminator f := by
  rintro ⟨-, s, hs, hlt, -⟩
  have hspec : p.layout.fields = before ++ spec :: (between ++ f :: later) := by
    rw [hfields, List.append_assoc, List.cons_append]
  obtain ⟨-, s', hs', -, -⟩ := id hlacks
  have hstop := hlacks.stop_eq hspec hs'
  have hbehind := stop_le_offset hfields hs' hs
  omega

/-- At most one field lacks its terminator. It lies up to the end of the data, and all fields behind
it are empty. -/
theorem LacksTerminator.sole (hfields : p.layout.fields = before ++ spec :: later)
    (hlacks : p.LacksTerminator spec) :
    (∀ f ∈ before ++ later, ¬p.LacksTerminator f) ∧
      (∃ s, p.resolve spec.name = .ok s ∧ s.stop = p.data.length) ∧
      ∀ f ∈ later, ∀ s, p.resolve f.name = .ok s → s.length = 0 := by
  have hbehind : ∀ f ∈ later, ∃ between back,
      p.layout.fields = (before ++ spec :: between) ++ f :: back := by
    intro f hf
    obtain ⟨between, back, rfl⟩ := List.append_of_mem hf
    exact ⟨between, back, by rw [hfields, List.append_assoc, List.cons_append]⟩
  refine ⟨fun f hf => ?_, ?_, fun f hf s hs => ?_⟩
  · rcases List.mem_append.1 hf with hf | hf
    · obtain ⟨front, between, rfl⟩ := List.append_of_mem hf
      exact fun h => h.not_behind hfields hlacks
    · obtain ⟨between, back, hsplit⟩ := hbehind f hf
      exact hlacks.not_behind hsplit
  · obtain ⟨-, s, hs, -, -⟩ := id hlacks
    exact ⟨s, hs, hlacks.stop_eq hfields hs⟩
  · obtain ⟨between, back, hsplit⟩ := hbehind f hf
    exact hlacks.length_eq_zero hsplit hs

end Lacking

/-! ## Both modes -/

/-- Both modes locate a field alike, unless there is too little data for the mode that insists and
some field up to this one lacks its terminator. -/
theorem locate_withStrict_cases (hfields : p.layout.fields = before ++ spec :: later) :
    (p.withStrict false).locate spec.name = (p.withStrict true).locate spec.name ∨
      ReadError.IsTruncated ((p.withStrict true).locate spec.name) ∧
        ∃ f ∈ before ++ [spec], (p.withStrict false).LacksTerminator f := by
  rcases locate_cases (p := p.withStrict true) hfields with
    ⟨parts, part, rest, rfl, rfl, h⟩ | ⟨parts, f, after, rest, e, hspecs, hd, hlocate, he⟩
  · have h' : (p.withStrict false).Reads (parts ++ [part]).length (parts ++ [part]) rest :=
      ⟨h.specs, h.decomposes.of_strict false⟩
    exact .inl (h'.locate_eq.trans h.locate_eq.symm)
  · have hd' : Decomposes (p.withStrict false).settings.strict p.data parts rest :=
      Decomposes.of_strict hd false
    obtain ⟨hsame, hmem⟩ := split_of_append_eq hfields hspecs
    have hwf := p.layout.wellFormed
    rw [hsame] at hwf
    by_cases hlack : f.rule = .nullTerminated ∧ rest ≠ [] ∧ f.type.NulFree rest
    · obtain ⟨hrule, hne, hfree⟩ := hlack
      have htruncated := (locate_truncated_iff hd hwf).2 (by
        rw [FieldSpec.Lacks, hrule]
        exact .inr ⟨rfl, hfree⟩)
      rw [hlocate] at htruncated
      obtain ⟨s, hs⟩ := htruncated
      refine .inr ⟨⟨s, by rw [he, Except.error.inj hs]⟩, f, by rw [hspecs]; simp, ?_⟩
      exact lacksTerminator_of_decomposes rfl hd' hsame hrule hne hfree
    · have hcongr := locate_congr hd hd' rfl rfl (fun _ _ => Iff.rfl) hwf
        fun hrule hne hfree => absurd ⟨hrule, hne, hfree⟩ hlack
      have he' := locate_eq_error (p := p.withStrict false) hd' hsame (hcongr ▸ hlocate) hmem
      exact .inl (he'.trans he.symm)

/-- A value decodes alike in both modes. -/
theorem decode_withStrict (p : FieldReader) (strict : Bool) (l : Located) :
    l.decode (p.withStrict strict).settings (p.withStrict strict).data =
      l.decode p.settings p.data := rfl

/-- A field that both modes locate alike is read alike. -/
theorem read_withStrict_eq (hfields : p.layout.fields = before ++ spec :: later)
    (h : (p.withStrict false).locate spec.name = (p.withStrict true).locate spec.name)
    (request : Request) :
    (p.withStrict false).read request spec.name = (p.withStrict true).read request spec.name := by
  rw [read_of_fields_eq (p := p.withStrict false) hfields,
    read_of_fields_eq (p := p.withStrict true) hfields, h]
  simp only [decode_withStrict]

/-- A reader that tolerates a missing terminator comes to whatever a reader that insists comes to,
unless that one finds too little data. Where it does and the other one does not, a field up to the one
asked for lacks its terminator. There is one such field at most; it takes all bytes to the end of the
data, and all fields behind it are empty. -/
theorem read_lenient (p : FieldReader) (hfields : p.layout.fields = before ++ spec :: later) :
    (∀ request, ¬ReadError.IsTruncated ((p.withStrict true).read request spec.name) →
      (p.withStrict false).read request spec.name = (p.withStrict true).read request spec.name ∧
        (request.accepts spec.type = true →
          (p.withStrict false).resolve spec.name = (p.withStrict true).resolve spec.name)) ∧
    (∀ request s, (p.withStrict true).read request spec.name = .error (.truncated s) →
      (p.withStrict false).read request spec.name ≠ .error (.truncated s) →
        ∃ f ∈ before ++ [spec], (p.withStrict false).LacksTerminator f) ∧
    ((p.withStrict false).LacksTerminator spec →
      (∀ f ∈ before ++ later, ¬(p.withStrict false).LacksTerminator f) ∧
        (∃ s, (p.withStrict false).resolve spec.name = .ok s ∧ s.stop = p.data.length) ∧
        ∀ f ∈ later, ∀ s, (p.withStrict false).resolve f.name = .ok s → s.length = 0) := by
  refine ⟨fun request hread => ?_, fun request s hs hne => ?_, fun hlacks => ?_⟩
  · rcases locate_withStrict_cases hfields with hsame | ⟨⟨s, hs⟩, -⟩
    · refine ⟨read_withStrict_eq hfields hsame request, fun _ => ?_⟩
      rw [resolve, resolve, hsame]
    · -- only a request that the declared type cannot answer is spared from the shortage
      have haccepts : ¬request.accepts spec.type = true := by
        intro haccepts
        refine hread ⟨s, ?_⟩
        rw [read_of_fields_eq (p := p.withStrict true) hfields, if_pos haccepts, hs]
      refine ⟨?_, fun h => absurd h haccepts⟩
      rw [read_of_fields_eq (p := p.withStrict false) hfields,
        read_of_fields_eq (p := p.withStrict true) hfields, if_neg haccepts, if_neg haccepts]
  · rcases locate_withStrict_cases hfields with hsame | ⟨-, hlack⟩
    · exact absurd ((read_withStrict_eq hfields hsame request).trans hs) hne
    · exact hlack
  · exact LacksTerminator.sole (p := p.withStrict false) hfields hlacks

end

/-- A reader of a number, a name and whatever is behind the name. -/
def trailing (data : Bytes) : FieldReader where
  record := .new (.new .nil 1 0) data
  layout := ⟨⟨1, 0⟩, none, [⟨"Kind", .scalar (.word .uint8), .fixed 1⟩,
    ⟨"Name", .unicodeString, .nullTerminated⟩, ⟨"Rest", .rawBytes, .remainder⟩], rfl⟩

/-- Where the name has no terminator, nothing is behind it for the mode that tolerates this. -/
theorem read_lenient_trailing :
    ((trailing [7, 65, 0, 66, 0]).withStrict true).read .any "Name" =
        .error (.truncated ⟨"Name", 1, 6, 4⟩) ∧
      ((trailing [7, 65, 0, 66, 0]).withStrict false).read .any "Name" =
        .ok (.value (.unicodeString "AB")) ∧
      ∀ s, ((trailing [7, 65, 0, 66, 0]).withStrict false).resolve "Rest" = .ok s →
        s.length = 0 := by
  have hstrict : ((trailing [7, 65, 0, 66, 0]).withStrict true).read .any "Name" =
      .error (.truncated ⟨"Name", 1, 6, 4⟩) := rfl
  have hlenient : ((trailing [7, 65, 0, 66, 0]).withStrict false).read .any "Name" =
      .ok (.value (.unicodeString "AB")) := rfl
  have hfields : (trailing [7, 65, 0, 66, 0]).layout.fields =
      [⟨"Kind", .scalar (.word .uint8), .fixed 1⟩] ++ ⟨"Name", .unicodeString, .nullTerminated⟩ ::
        [⟨"Rest", .rawBytes, .remainder⟩] := rfl
  obtain ⟨-, hrecovered, hsole⟩ := read_lenient _ hfields
  refine ⟨hstrict, hlenient, ?_⟩
  obtain ⟨f, hf, hlacks⟩ := hrecovered .any _ hstrict (by rw [hlenient]; nofun)
  -- the number has no terminator to lack
  obtain rfl | rfl : f = _ ∨ f = _ := by simpa using hf
  · cases hlacks.1
  · exact (hsole hlacks).2.2 _ (List.mem_singleton_self _)

end FieldReader

end EventTrace
