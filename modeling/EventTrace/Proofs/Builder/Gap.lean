import EventTrace.Proofs.Builder.Incomplete
import EventTrace.Proofs.Reading.Shortage

/-!
# What lies behind a gap

An incomplete record holds the fields up to its gap, so one would expect the field of the gap and all
behind it to be truncated. They are exactly if the data runs out at the gap or before it. Where every
length is in agreement with its value, all data belongs to the fields before the gap, and this comes
down to whether the field of the gap takes any bytes (`RecordBuilder.pack_incomplete_truncated_iff`).
A remainder takes none, so it is read as an empty value though it was never added
(`RecordBuilder.reads_missing_remainder`).
-/

namespace EventTrace.RecordBuilder

section

variable [Codecs] {b : RecordBuilder} {p : PackedRecord} {layout : Layout}
  {before later : List FieldSpec} {gap : FieldSpec} {parts : List Part}

/-- Whether every value whose length is in another field has the length that is there. -/
def LengthsAgree (b : RecordBuilder) (specs : List FieldSpec) : Prop :=
  ∀ spec ∈ specs, ∀ reference v raw, spec.rule = .lengthField reference →
    b.value? spec.name = some v → v.encode b.codec = .ok raw →
      (b.value? reference).bind FieldValue.integer? =
        some (Int.ofNat (raw.length / spec.type.elementWidth))

/-- Whether a field takes at least one byte, going by the lengths among the values of a builder. -/
def TakesBytes (b : RecordBuilder) (spec : FieldSpec) : Prop :=
  match spec.rule with
  | .fixed width => 0 < width
  | .nullTerminated | .counted => True
  | .lengthField reference => ∃ count, (b.value? reference).bind FieldValue.integer? = some count ∧
      0 < count ∧ count.toNat * spec.type.elementWidth < lengthBound
  | .remainder => False

/-! ## Parts before the gap -/

/-- An incomplete record is made of the parts of the fields before the gap. -/
theorem exists_encodes_of_pack_incomplete (hb : b.Reachable) (htarget : b.target = some layout)
    (hfields : layout.fields = before ++ gap :: later) (hstops : b.StopsAfter before (gap :: later))
    (h : b.pack .incomplete = .ok p) :
    p.layout = layout ∧ ∃ parts, parts.map Part.spec = before ∧
      bytesOf parts = p.record.userData ∧ ∀ q ∈ parts, ∃ v raw, b.Encodes .incomplete q v raw := by
  obtain ⟨-, -, data, hdata, hrecord⟩ := pack_eq_ok h
  have hsame := layout_of_pack htarget h
  rw [hsame, hfields, encodeFields_append hstops] at hdata
  have hsupplies : b.Supplies before := by
    intro spec hspec
    obtain ⟨v, hv⟩ := Option.isSome_iff_exists.1 (hstops.supplied spec hspec)
    have hmem : spec ∈ layout.fields := by
      rw [hfields]
      exact List.mem_append_left _ hspec
    exact ⟨v, hv, type_of_target hb.typed htarget hmem hv⟩
  obtain ⟨parts, hspecs, rfl, hparts⟩ := exists_parts_of_encodeFields hsupplies hdata
  exact ⟨hsame, parts, hspecs, by rw [hrecord, userData_recordOf], hparts⟩

/-- A length that is right in an incomplete record is one that a complete record may have. -/
theorem Encodes.complete {part : Part} {v : FieldValue} {raw : Bytes} {specs : List FieldSpec}
    (h : b.Encodes .incomplete part v raw) (hagree : b.LengthsAgree specs)
    (hspec : part.spec ∈ specs) : b.Encodes .complete part v raw := by
  refine { h with fits := ?_ }
  have hfits := h.fits
  unfold applyRule at hfits ⊢
  cases hrule : part.spec.rule with
  | fixed width => simpa only [hrule] using hfits
  | nullTerminated => simpa only [hrule] using hfits
  | lengthField reference =>
    have hheld := hagree part.spec hspec reference v raw hrule h.value h.encode
    simpa [hrule, hheld] using hfits
  | remainder => simpa only [hrule] using hfits
  | counted => simpa only [hrule] using hfits

/-- No data is too little exactly for a field that takes bytes. -/
theorem lacks_nil_iff (hparts : ∀ q ∈ parts, ∃ v raw, b.Encodes .complete q v raw)
    (hwf : Layout.WellFormed (parts.map Part.spec ++ gap :: later)) (strict : Bool) :
    gap.Lacks strict parts [] ↔ b.TakesBytes gap := by
  rw [FieldSpec.Lacks, TakesBytes]
  cases hrule : gap.rule with
  | fixed width => rfl
  | nullTerminated => simp
  | lengthField reference =>
    have hsuits : ∀ q ∈ parts, ∃ earlier v raw, q.spec.SuitsAfter earlier ∧
        b.Encodes .complete q v raw := by
      intro q hq
      obtain ⟨v, raw, h⟩ := hparts q hq
      obtain ⟨front, back, rfl⟩ := List.append_of_mem hq
      rw [List.map_append, List.map_cons, List.append_assoc, List.cons_append] at hwf
      exact ⟨_, v, raw, hwf.suits rfl, h⟩
    have hholds := fun count =>
      Encodes.holds_iff (n := count) hsuits ((hwf.suits rfl).exists_reference hrule)
    have hpos := gap.type.elementWidth_pos
    simp only [hholds, List.length_nil, Nat.mul_pos_iff_of_pos_right hpos]
    refine exists_congr fun count => and_congr_right fun _ => ?_
    constructor
    · rintro ⟨-, hlt, hne⟩
      exact ⟨Int.pos_iff_toNat_pos.2 hne, hlt⟩
    · rintro ⟨hcount, hlt⟩
      exact ⟨Int.le_of_lt hcount, hlt, Int.pos_iff_toNat_pos.1 hcount⟩
  | remainder => rfl
  | counted => simp

/-- The field of the gap of an incomplete record and all fields behind it are truncated exactly if the
data runs out at the gap or before it. If all lengths before the gap agree with their values, this is
so exactly if the field of the gap takes bytes. -/
theorem pack_incomplete_truncated_iff (hb : b.Reachable) (htarget : b.target = some layout)
    (hfields : layout.fields = before ++ gap :: later) (hstops : b.StopsAfter before (gap :: later))
    (h : b.pack .incomplete = .ok p) (hsize : p.record.userData.length < lengthBound)
    (settings : Settings) :
    ((∀ f ∈ gap :: later, ReadError.IsTruncated ((p.reader settings).read .any f.name)) ↔
        (p.reader settings).RunsOut (before ++ [gap])) ∧
      (b.LengthsAgree before →
        ((p.reader settings).RunsOut (before ++ [gap]) ↔ b.TakesBytes gap)) := by
  obtain ⟨rfl, parts, rfl, hbytes, hparts⟩ :=
    exists_encodes_of_pack_incomplete hb htarget hfields hstops h
  refine ⟨FieldReader.forall_truncated_iff hfields, fun hagree => ?_⟩
  have hcomplete : ∀ q ∈ parts, ∃ v raw, b.Encodes .complete q v raw := by
    intro q hq
    obtain ⟨v, raw, hencodes⟩ := hparts q hq
    exact ⟨v, raw, hencodes.complete hagree (List.mem_map_of_mem hq)⟩
  have hwf := p.layout.wellFormed
  rw [hfields] at hwf
  have hcount := countable_of_encodes hcomplete (hbytes ▸ hsize)
  have hd := decomposes_of_encodes hwf.of_append hcomplete hcount settings.strict
  rw [hbytes] at hd
  rw [FieldReader.runsOut_iff_lacks hd hfields]
  exact lacks_nil_iff hcomplete hwf settings.strict

end

/-- A builder that lacks the number in front of what is left of the data. -/
def headless : RecordBuilder :=
  ((forLayout .nil ⟨⟨1, 0⟩, none, [.natural "Kind" (.scalar (.word .uint8)),
    .natural "Code" (.scalar (.word .uint16)), .natural "Rest" .rawBytes], rfl⟩).run
      [.add (.scalar "Kind" (.word .uint8 1)), .add (.bytes "Rest" [2])]).1

theorem reachable_headless : headless.Reachable := (Reachable.forLayout _ _).run _

/-- Without the code, an incomplete pack leaves one byte, behind which both other fields are cut
off. -/
theorem pack_incomplete_truncated_headless : ∃ p, headless.pack .incomplete = .ok p ∧
    ReadError.IsTruncated (p.reader.read .any "Code") ∧
    ReadError.IsTruncated (p.reader.read .any "Rest") := by
  refine ⟨_, rfl, ?_⟩
  have hstops : headless.StopsAfter [.natural "Kind" (.scalar (.word .uint8))]
      [.natural "Code" (.scalar (.word .uint16)), .natural "Rest" .rawBytes] := by
    constructor <;> simp <;> decide
  have hagree : headless.LengthsAgree [.natural "Kind" (.scalar (.word .uint8))] := by
    intro spec hspec reference v raw hrule
    rw [List.mem_singleton.1 hspec] at hrule
    cases hrule
  obtain ⟨hiff, htakes⟩ := pack_incomplete_truncated_iff reachable_headless rfl rfl hstops rfl
    (by decide) {}
  have hall := hiff.2 ((htakes hagree).2 (Nat.zero_lt_succ _))
  exact ⟨hall _ (.head _), hall _ (.tail _ (.head _))⟩

/-- A builder that lacks what is left of the data. -/
def restless : RecordBuilder :=
  ((forLayout .nil ⟨⟨1, 0⟩, none, [.natural "Kind" (.scalar (.word .uint8)),
    .natural "Rest" .rawBytes], rfl⟩).run [.add (.scalar "Kind" (.word .uint8 1))]).1

theorem reads_missing_remainder : restless.missing = ["Rest"] ∧
    ∃ p, restless.pack .incomplete = .ok p ∧
      p.reader.read .any "Rest" = .ok (.value (.bytes [])) :=
  ⟨rfl, _, rfl, rfl⟩

end EventTrace.RecordBuilder
