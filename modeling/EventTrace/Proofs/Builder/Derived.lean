import EventTrace.Builder.Adder
import EventTrace.Proofs.Builder.Refusal
import EventTrace.Proofs.Layout.Faults

/-!
# Derived layouts

A builder that is not bound to a layout has additions under different names only
(`RecordBuilder.Derives`), and whatever way a value was given in, its rule suits its type. So the additions
always make up a layout, none of whose fields has its length in another one and none of which lacks its
value: packing fails for the values alone, and in both modes alike
(`RecordBuilder.pack_derived`).
-/

namespace EventTrace

/-! ## Declarations of additions -/

namespace Addition

/-- The rule that an addition chooses for its field suits the type, whatever fields stand before. -/
theorem suitsAfter_toSpec (a : Addition) (earlier : List FieldSpec) : a.toSpec.SuitsAfter earlier := by
  obtain ⟨name, value, rule, htakes⟩ := a
  cases value with
  | scalar s => exact htakes
  | ansiString text =>
    obtain rfl : rule = .nullTerminated := htakes
    rfl
  | unicodeString text =>
    rcases htakes with rfl | rfl
    · rfl
    · trivial
  | bytes data =>
    obtain rfl : rule = .fixed data.length := htakes
    exact Nat.one_dvd _

/-- No addition takes its length from another field or from what is left. -/
theorem rule_toSpec (a : Addition) :
    (∀ reference, a.toSpec.rule ≠ .lengthField reference) ∧ a.toSpec.rule ≠ .remainder := by
  obtain ⟨name, value, rule, htakes⟩ := a
  cases value with
  | scalar s =>
    obtain rfl : rule = .fixed s.type.width := htakes
    exact ⟨nofun, nofun⟩
  | ansiString text =>
    obtain rfl : rule = .nullTerminated := htakes
    exact ⟨nofun, nofun⟩
  | unicodeString text => rcases htakes with rfl | rfl <;> exact ⟨nofun, nofun⟩
  | bytes data =>
    obtain rfl : rule = .fixed data.length := htakes
    exact ⟨nofun, nofun⟩

/-- Additions under different names make up a layout. -/
theorem wellFormed_toSpec {additions : List Addition}
    (hdistinct : (additions.map Addition.name).Nodup) :
    Layout.WellFormed (additions.map toSpec) where
  distinct := by
    rw [List.map_map]
    exact hdistinct
  suits {before f later} hsplit := by
    obtain ⟨_, _, -, -, hrest⟩ := List.map_eq_append_iff.1 hsplit
    obtain ⟨a, _, -, rfl, -⟩ := List.map_eq_cons_iff.1 hrest
    exact a.suitsAfter_toSpec before
  last {before f later} hsplit hrule := by
    obtain ⟨_, _, -, -, hrest⟩ := List.map_eq_append_iff.1 hsplit
    obtain ⟨a, _, -, rfl, -⟩ := List.map_eq_cons_iff.1 hrest
    exact absurd hrule a.rule_toSpec.2

end Addition

theorem Entry.added_cons (entry : Entry) (entries : List Entry)
    (reply : Except BuildError BuilderReply) (replies : List (Except BuildError BuilderReply)) :
    Entry.added (entry :: entries) (reply :: replies) =
      (entry.added? reply).toList ++ Entry.added entries replies := by
  rw [Entry.added, List.zip_cons_cons, List.filterMap_cons]
  cases entry.added? reply <;> rfl

namespace RecordBuilder

/-! ## Builders that derive their layouts -/

/-- Whether a builder is not bound to a layout, and has additions under different names. -/
structure Derives (b : RecordBuilder) : Prop where
  unbound : b.target = none
  distinct : (b.additions.map Addition.name).Nodup

variable [Codecs] {b b' : RecordBuilder} {mode : PackMode} {e : BuildError}

omit [Codecs] in
theorem Derives.new (providerId : Guid) (eventId : UInt16) (version : UInt8) (codec : Codec) :
    ((new providerId eventId version).withCodec codec).Derives := ⟨rfl, .nil⟩

omit [Codecs] in
theorem Derives.add (h : b.Derives) {a : Addition} (hadd : b.add a = .ok b') : b'.Derives := by
  obtain ⟨-, hnew, -, rfl⟩ := add_eq_ok hadd
  refine ⟨h.unbound, ?_⟩
  rw [List.map_append, List.map_singleton, ← List.concat_eq_append]
  exact h.distinct.concat (value?_eq_none_iff.1 hnew)

/-- What one call preserves. -/
theorem Derives.call (h : b.Derives) (c : BuilderCall) : (b.call c).1.Derives := by
  cases c with
  | add a =>
    rw [RecordBuilder.call]
    cases hadd : b.add a with
    | error e => exact h
    | ok b' => exact h.add hadd
  | withStack addresses =>
    rw [RecordBuilder.call]
    cases hstack : b.withStack addresses with
    | error e => exact h
    | ok b' =>
      rw [withStack_eq_ok hstack]
      exact ⟨h.unbound, h.distinct⟩
  | edit change => exact ⟨h.unbound, h.distinct⟩
  | pack mode =>
    rw [RecordBuilder.call]
    cases b.pack mode with
    | error e => exact h
    | ok p => exact ⟨h.unbound, .nil⟩

/-- What all calls preserve. -/
theorem Derives.run (h : b.Derives) (calls : List BuilderCall) : (b.run calls).1.Derives := by
  induction calls generalizing b with
  | nil => exact h
  | cons c calls ih => exact ih (h.call c)

omit [Codecs] in
/-- The additions of an unbound builder always make up its layout. -/
theorem Derives.exists_layout (h : b.Derives) :
    ∃ layout, b.layout = .ok layout ∧ layout.key = b.key ∧
      layout.fields = b.additions.map Addition.toSpec := by
  obtain ⟨layout, hlayout⟩ := Layout.ofFields_eq_ok_iff.2 (Addition.wellFormed_toSpec h.distinct)
  refine ⟨layout, ?_, Layout.key_of_ofFields hlayout, Layout.fields_of_ofFields hlayout⟩
  simp only [RecordBuilder.layout, h.unbound, derivedLayout, hlayout]

/-! ## Packing -/

omit [Codecs] in
theorem missing_of_unbound (h : b.target = none) : b.missing = [] := by
  simp only [missing, h]

/-- Without a length in another field, a field is encoded alike in both modes. -/
theorem encodeField_mode {spec : FieldSpec} (hrule : ∀ reference, spec.rule ≠ .lengthField reference)
    (v : FieldValue) : b.encodeField .complete spec v = b.encodeField .incomplete spec v := by
  have happly : ∀ raw, b.applyRule .complete spec raw = b.applyRule .incomplete spec raw := by
    intro raw
    rw [applyRule, applyRule]
    cases hspec : spec.rule with
    | lengthField reference => exact absurd hspec (hrule reference)
    | fixed width | nullTerminated | remainder | counted => rfl
  simp only [encodeField, happly]

/-- Without a length in another field, both modes give the same bytes. -/
theorem encodeFields_mode {specs : List FieldSpec}
    (hrules : ∀ spec ∈ specs, ∀ reference, spec.rule ≠ .lengthField reference) :
    b.encodeFields .complete specs = b.encodeFields .incomplete specs := by
  induction specs with
  | nil => rfl
  | cons spec later ih =>
    obtain ⟨hspec, hlater⟩ := List.forall_mem_cons.1 hrules
    simp only [encodeFields, encodeField_mode hspec, ih hlater]

/-- An unbound builder packs alike in both modes. -/
theorem Derives.pack_mode (h : b.Derives) : b.pack .complete = b.pack .incomplete := by
  obtain ⟨layout, hlayout, -, hfields⟩ := h.exists_layout
  have hrules : ∀ spec ∈ layout.fields, ∀ reference, spec.rule ≠ .lengthField reference := by
    intro spec hspec
    rw [hfields] at hspec
    obtain ⟨a, -, rfl⟩ := List.mem_map.1 hspec
    exact a.rule_toSpec.1
  have hmissing : ∀ mode : PackMode, mode = .complete → b.missing = [] := fun _ _ =>
    missing_of_unbound h.unbound
  cases hopen : b.finalized with
  | true => rw [pack, pack, if_pos hopen, if_pos hopen]
  | false =>
    rw [pack_eq_map hopen (hmissing _) hlayout, pack_eq_map hopen (hmissing _) hlayout,
      encodeFields_mode hrules]

/-- An open builder that is unbound fails to pack for one of its values only. -/
theorem Derives.firstRefusal (h : b.Derives) (hopen : b.finalized = false)
    (hpack : b.pack mode = .error e) : b.FirstRefusal mode (b.additions.map Addition.toSpec) e := by
  obtain ⟨layout, hlayout, -, hfields⟩ := h.exists_layout
  have hsupplied : ∀ spec ∈ layout.fields, (b.value? spec.name).isSome := by
    intro spec hspec
    rw [hfields] at hspec
    obtain ⟨a, ha, rfl⟩ := List.mem_map.1 hspec
    rw [show a.toSpec.name = a.name from rfl, value?_of_mem h.distinct ha]
    rfl
  rw [← hfields, ← encodeFields_eq_error_iff hsupplied]
  rw [pack_eq_map hopen (fun _ => missing_of_unbound h.unbound) hlayout] at hpack
  cases hencode : b.encodeFields mode layout.fields with
  | ok data => simp [hencode, Except.map] at hpack
  | error e' =>
    simp only [hencode, Except.map, Except.error.injEq] at hpack
    rw [hpack]

/-! ## Entries -/

/-- What one entry leaves: the builder stays open, and it has one more addition exactly if one was
answered with success. -/
theorem call_entry (hopen : b.finalized = false) (entry : Entry) :
    (b.call entry.call).1.finalized = false ∧
      (b.call entry.call).1.additions =
        b.additions ++ (entry.added? (b.call entry.call).2).toList := by
  cases entry with
  | add name adder =>
    simp only [Entry.call, call]
    cases hadd : b.add (adder.addition name) with
    | error e => exact ⟨hopen, (List.append_nil _).symm⟩
    | ok b' =>
      obtain ⟨-, -, -, rfl⟩ := add_eq_ok hadd
      exact ⟨hopen, rfl⟩
  | withStack addresses =>
    simp only [Entry.call, call]
    cases hstack : b.withStack addresses with
    | error e => exact ⟨hopen, (List.append_nil _).symm⟩
    | ok b' =>
      rw [withStack_eq_ok hstack]
      exact ⟨hopen, (List.append_nil _).symm⟩
  | edit change => exact ⟨hopen, (List.append_nil _).symm⟩

/-- What all entries leave. -/
theorem run_entries (hopen : b.finalized = false) (entries : List Entry) :
    (b.run (entries.map Entry.call)).1.finalized = false ∧
      (b.run (entries.map Entry.call)).1.additions =
        b.additions ++ Entry.added entries (b.run (entries.map Entry.call)).2 := by
  induction entries generalizing b with
  | nil => exact ⟨hopen, (List.append_nil _).symm⟩
  | cons entry entries ih =>
    obtain ⟨hnext, hadditions⟩ := call_entry hopen entry
    obtain ⟨hlast, hrest⟩ := ih hnext
    refine ⟨hlast, hrest.trans ?_⟩
    rw [hadditions, List.append_assoc, List.map_cons, run, Entry.added_cons]

/-- Whatever was done with a builder that derives its layout, the layout is valid: it has the key of the
header as it is when the record is packed, and the fields are the values that were taken, in their order
and under the types that they have. So no record lacks a field, both ways to pack it come to the same, and
what is packed comes with the layout. -/
theorem pack_derived (providerId : Guid) (eventId : UInt16) (version : UInt8) (codec : Codec)
    (entries : List Entry) :
    let b := (((new providerId eventId version).withCodec codec).run (entries.map Entry.call)).1
    let replies := (((new providerId eventId version).withCodec codec).run (entries.map Entry.call)).2
    (∃ layout, b.layout = .ok layout ∧ layout.key = ⟨b.header.eventId, b.header.version⟩ ∧
      layout.fields = (Entry.added entries replies).map Addition.toSpec ∧
      ∀ mode p, b.pack mode = .ok p → p.layout = layout) ∧
    (∀ mode key, (∀ cause, b.pack mode ≠ .error (.invalidLayout key cause)) ∧
      ∀ names, b.pack mode ≠ .error (.incomplete key names)) ∧
    b.pack .complete = b.pack .incomplete := by
  intro b replies
  have hstart : ((new providerId eventId version).withCodec codec).finalized = false := rfl
  have hderives : b.Derives := (Derives.new providerId eventId version codec).run _
  obtain ⟨hopen, hadditions⟩ := run_entries hstart entries
  obtain ⟨layout, hlayout, hkey, hfields⟩ := hderives.exists_layout
  refine ⟨⟨layout, hlayout, hkey, ?_, ?_⟩, fun mode key => ⟨?_, ?_⟩, hderives.pack_mode⟩
  · rw [hfields, hadditions]
    rfl
  · intro mode p hp
    exact Except.ok.inj ((pack_eq_ok hp).2.1.symm.trans hlayout)
  · intro cause hpack
    obtain ⟨_, _, _, -, -, hrefuses⟩ := hderives.firstRefusal hopen hpack
    cases hrefuses
  · intro names hpack
    obtain ⟨_, _, _, -, -, hrefuses⟩ := hderives.firstRefusal hopen hpack
    cases hrefuses

end RecordBuilder

end EventTrace
