import EventTrace.Proofs.Builder.Machine
import EventTrace.Proofs.Builder.Refusal

/-!
# Verdicts of a machine

What comes of packing an open builder that is bound to a layout. The fields that lack a value are
reported before anything is encoded. Otherwise the machine goes by the values as the builder does
(`RecordBuilder.Judges`), up to where the fields come to more bytes than a vector holds: there it stops,
and no value behind that place is looked at (`Machine.pack_judges`, `Machine.pack_stops_overlong`).
-/

namespace EventTrace.Machine

section

variable [Codecs] {b : RecordBuilder} {mode : PackMode} {layout : Layout} {specs : List FieldSpec}

/-- Whether packing in a mode goes by the values of some fields of a layout: it stops if they overfill a
vector, and otherwise succeeds if all values are accepted and reports the first that is refused if not.
It never misses a field. -/
structure Judges (b : RecordBuilder) (mode : PackMode) (layout : Layout) (specs : List FieldSpec) :
    Prop where
  stops : pack b mode = none ↔ Overfills b mode layout
  ok : (∃ p, pack b mode = some (.ok p)) ↔
    (∀ spec ∈ specs, b.Accepts mode spec) ∧ ¬Overfills b mode layout
  error : ∀ e, pack b mode = some (.error e) ↔
    b.FirstRefusal mode specs e ∧ ¬Overfills b mode layout
  misses : ∀ key names, pack b mode ≠ some (.error (.incomplete key names))

/-- A builder that is bound and misses nothing stops exactly where its layout overfills a vector. -/
theorem stops_iff (hopen : b.finalized = false) (htarget : b.target = some layout)
    (hmissing : mode = .complete → b.missing = []) : Stops b mode ↔ Overfills b mode layout := by
  have hlayout : b.layout = .ok layout := RecordBuilder.layout_of_target htarget
  constructor
  · rintro ⟨-, -, layout', hlayout', hover⟩
    obtain rfl := Except.ok.inj (hlayout.symm.trans hlayout')
    exact hover
  · intro hover
    exact ⟨hopen, hmissing, layout, hlayout, hover⟩

/-- A machine goes by the values that the builder goes by. -/
theorem judges_of_judges (h : b.Judges mode specs) (hstops : Stops b mode ↔ Overfills b mode layout) :
    Judges b mode layout specs := by
  by_cases hover : Overfills b mode layout
  · have hpack : pack b mode = none := pack_eq_none (hstops.2 hover)
    constructor
    · exact iff_of_true hpack hover
    · simp [hpack, hover]
    · simp [hpack, hover]
    · simp [hpack]
  · have hpack : pack b mode = some (b.pack mode) := pack_eq_some (mt hstops.1 hover)
    constructor
    · simp [hpack, hover]
    · simpa [hpack, hover] using h.ok
    · simpa [hpack, hover] using h.error
    · simpa [hpack] using h.misses

/-- Missing fields are reported before anything can stop the machine. -/
theorem pack_eq_incomplete_iff (hopen : b.finalized = false) (htarget : b.target = some layout)
    {key : LayoutKey} {names : List String} :
    pack b .complete = some (.error (.incomplete key names)) ↔
      b.missing ≠ [] ∧ key = b.key ∧ names = b.missing := by
  rw [← RecordBuilder.pack_eq_incomplete_iff hopen htarget]
  constructor
  · intro h
    exact (eq_pack_of_pack_eq_some h).symm
  · intro h
    have hmissing := ((RecordBuilder.pack_eq_incomplete_iff hopen htarget).1 h).1
    rw [pack_eq_some fun hstops => hmissing (hstops.2.1 rfl), h]

/-- Of an open builder bound to a layout, a machine does not pack a complete record exactly if a field has
no value, and reports all such fields in their order. If there are none, it goes by all values. For an
incomplete record it goes by the fields before the gap alone. In both it stops exactly if the fields that
it gets to overfill a vector. -/
theorem pack_judges (hopen : b.finalized = false) (htarget : b.target = some layout) :
    ((∃ key names, pack b .complete = some (.error (.incomplete key names))) ↔
      ∃ spec ∈ layout.fields, b.value? spec.name = none) ∧
    (∀ key names, pack b .complete = some (.error (.incomplete key names)) →
      key = b.key ∧ names.Sublist (layout.fields.map FieldSpec.name) ∧
        ∀ name, name ∈ names ↔ name ∈ layout.fields.map FieldSpec.name ∧ b.value? name = none) ∧
    ((∀ spec ∈ layout.fields, (b.value? spec.name).isSome) →
      Judges b .complete layout layout.fields) ∧
    ∃ before rest, layout.fields = before ++ rest ∧ b.StopsAfter before rest ∧
      Judges b .incomplete layout before := by
  have hnone : b.missing ≠ [] ↔ ∃ spec ∈ layout.fields, b.value? spec.name = none := by
    simp [RecordBuilder.missing_eq_nil_iff htarget]
  refine ⟨?_, ?_, ?_, ?_⟩
  · rw [← hnone]
    constructor
    · rintro ⟨key, names, h⟩
      exact ((pack_eq_incomplete_iff hopen htarget).1 h).1
    · intro hmissing
      exact ⟨_, _, (pack_eq_incomplete_iff hopen htarget).2 ⟨hmissing, rfl, rfl⟩⟩
  · intro key names h
    obtain ⟨-, rfl, rfl⟩ := (pack_eq_incomplete_iff hopen htarget).1 h
    exact ⟨rfl, RecordBuilder.missing_sublist htarget,
      fun name => RecordBuilder.mem_missing_iff htarget⟩
  · intro hsupplied
    have hmissing := (RecordBuilder.missing_eq_nil_iff htarget).2 hsupplied
    exact judges_of_judges (RecordBuilder.judges_complete hopen htarget hmissing)
      (stops_iff hopen htarget fun _ => hmissing)
  · obtain ⟨before, rest, hfields, hstops, hjudges⟩ :=
      RecordBuilder.exists_judges_incomplete hopen htarget
    exact ⟨before, rest, hfields, hstops,
      judges_of_judges hjudges (stops_iff hopen htarget PackMode.noConfusion)⟩

end

/-- A builder with a text of another length than it should have, and with bytes that do not fit. -/
def crammed : RecordBuilder :=
  ((RecordBuilder.forLayout .nil ⟨⟨1, 0⟩, none, [.natural "Count" (.scalar (.word .uint8)),
    ⟨"Title", .unicodeString, .lengthField "Count"⟩, ⟨"Code", .rawBytes, .fixed 2⟩], rfl⟩).run
      [.add (.bytes "Code" [1, 2, 3]), .add (.unicode "Title" "ab"),
        .add (.scalar "Count" (.word .uint8 1))]).1

/-- A count that does not match, where both packs name the first field at fault. -/
theorem pack_judges_crammed : crammed.finalized = false ∧
    ∃ layout before, crammed.target = some layout ∧
    pack crammed .complete = some (.error (.misfit "Title" (.wrongLength "Count" 2 (some 1)))) ∧
    crammed.FirstRefusal .complete layout.fields
      (.misfit "Title" (.wrongLength "Count" 2 (some 1))) ∧
    crammed.FirstRefusal .incomplete before (.misfit "Code" (.tooLong 3 2)) := by
  obtain ⟨-, -, hcomplete, before, rest, -, -, hincomplete⟩ := pack_judges (b := crammed) rfl rfl
  have hpack : pack crammed .complete =
    some (.error (.misfit "Title" (.wrongLength "Count" 2 (some 1)))) := rfl
  have hpack' : pack crammed .incomplete = some (.error (.misfit "Code" (.tooLong 3 2))) := rfl
  exact ⟨rfl, _, before, rfl, hpack, (((hcomplete (by decide)).error _).1 hpack).1,
    ((hincomplete.error _).1 hpack').1⟩

/-- A builder with a text that does not fit, behind a byte for a field that is as wide as no vector. -/
def overlong : RecordBuilder :=
  ((RecordBuilder.forLayout .nil ⟨⟨1, 0⟩, none, [⟨"Blob", .rawBytes, .fixed (wordCount 63)⟩,
    ⟨"Name", .ansiString, .fixed 1⟩], rfl⟩).run
      [.add (.bytes "Blob" [1]), .add (.ansi "Name" "ab")]).1

/-- The text is the first value to be refused, but the machine stops before it. -/
theorem pack_stops_overlong : ∃ layout, overlong.target = some layout ∧ overlong.missing = [] ∧
    overlong.FirstRefusal .complete layout.fields (.misfit "Name" (.tooLong 2 1)) ∧
    pack overlong .complete = none ∧ pack overlong .incomplete = none := by
  refine ⟨_, rfl, rfl, ?_, by decide, by decide⟩
  refine ⟨[⟨"Blob", .rawBytes, .fixed (wordCount 63)⟩], ⟨"Name", .ansiString, .fixed 1⟩, [], rfl, ?_, ?_⟩
  · intro spec hspec
    obtain rfl := List.mem_singleton.1 hspec
    have hwide : [1].length ≤ wordCount 63 := by decide
    exact ⟨.bytes [1], [1], rfl, rfl, nofun, hwide⟩
  · have hfree : FieldType.ansiString.isString = true → FieldType.ansiString.NulFree [97, 98] :=
      (FieldType.hasNul_eq_false_iff .ansiString).1 rfl
    exact .rule (v := .ansiString "ab") rfl rfl hfree (.tooLong rfl (by decide))

end EventTrace.Machine
