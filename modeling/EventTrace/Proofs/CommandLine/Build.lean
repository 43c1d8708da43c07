import EventTrace.CommandLine.Parse
import EventTrace.Proofs.Builder.Machine
import EventTrace.Proofs.Field.Agreement
import EventTrace.Proofs.Record.Document

/-!
# What is built is selected

A record that `build` puts together holds the value of every assignment it was given
(`Build.exists_assigned`), and its document is read back as the record. So a condition of `parse` on
one of these assignments holds of it, unless the assignment spells bytes that leave some of their
field to be filled with zeros.
-/

namespace EventTrace.CommandLine

theorem exists_of_bind_eq_ok {ε α β : Type} {x : Except ε α} {f : α → Except ε β} {b : β}
    (h : x >>= f = .ok b) : ∃ a, x = .ok a ∧ f a = .ok b := by
  cases x with
  | error e => cases h
  | ok a => exact ⟨a, rfl, h⟩

/-! ## Assignments -/

/-- Whether an assignment to a field of a layout spells some value. -/
def Spells (layout : Layout) (a : Literal.Assignment) (spec : FieldSpec) (v : FieldValue) : Prop :=
  layout.field? a.name = some spec ∧ Literal.parse spec.type a.text = .ok v

/-- A builder of a record of a layout after some assignments to fields. -/
structure Assigned (layout : Layout) (assigned : List Literal.Assignment) (b : RecordBuilder) :
    Prop where
  reachable : b.Reachable
  target : b.target = some layout
  codec : b.codec = .windows1252
  flags : b.header.flags = .singleton .header64Bit
  key : b.key = layout.key
  holds : ∀ a ∈ assigned, ∃ spec v, Spells layout a spec v ∧ b.value? a.name = some v

namespace Build

variable {layout : Layout} {b b' : RecordBuilder}

/-- What an assignment does when it succeeds. -/
theorem assign_eq_ok {arg : String} (h : assign layout b arg = .ok b') :
    ∃ a spec v, assignmentOf arg = .ok a ∧ Spells layout a spec v ∧
      b.add (.ofValue a.name v) = .ok b' := by
  obtain ⟨a, ha, h⟩ := exists_of_bind_eq_ok h
  cases hspec : layout.field? a.name with
  | none => simp [hspec] at h
  | some spec =>
    simp only [hspec] at h
    cases hv : Literal.parse spec.type a.text with
    | error f => simp [hv] at h
    | ok v =>
      simp only [hv] at h
      cases hadd : b.add (.ofValue a.name v) with
      | error e => simp [hadd] at h
      | ok next =>
        simp only [hadd, Except.ok.injEq] at h
        subst h
        exact ⟨a, spec, v, ha, ⟨hspec, hv⟩, hadd⟩

/-- A builder for a layout starts with no assignments. -/
theorem assigned_forLayout (provider : Guid) (layout : Layout) :
    Assigned layout [] (.forLayout provider layout) where
  reachable := .forLayout provider layout
  target := rfl
  codec := rfl
  flags := rfl
  key := rfl
  holds := fun a ha => by cases ha

/-- An assignment that succeeds leaves the values of the assignments before it. -/
theorem exists_assigned_of_assign {assigned : List Literal.Assignment} {arg : String}
    (hb : Assigned layout assigned b) (h : assign layout b arg = .ok b') :
    ∃ a, assignmentOf arg = .ok a ∧ Assigned layout (assigned ++ [a]) b' := by
  obtain ⟨a, spec, v, ha, hspells, hadd⟩ := assign_eq_ok h
  have hvalue : b'.value? a.name = some v := by
    have := RecordBuilder.value?_add hadd
    cases v with
    | scalar s | ansiString s | unicodeString s | bytes data => exact this
  refine ⟨a, ha, ?_⟩
  have hreachable := hb.reachable.add hadd
  have hholds : ∀ a' ∈ assigned ++ [a], ∃ spec v, Spells layout a' spec v ∧
      b'.value? a'.name = some v := by
    intro a' ha'
    rcases List.mem_append.1 ha' with ha' | ha'
    · obtain ⟨spec', v', hspells', hv'⟩ := hb.holds a' ha'
      exact ⟨spec', v', hspells', RecordBuilder.value?_of_add hadd hv'⟩
    · rw [List.mem_singleton.1 ha']
      exact ⟨spec, v, hspells, hvalue⟩
  -- what else there is to a builder is as before the addition
  obtain ⟨-, -, -, rfl⟩ := RecordBuilder.add_eq_ok hadd
  exact ⟨hreachable, hb.target, hb.codec, hb.flags, hb.key, hholds⟩

/-- Assignments that succeed one after the other all leave their values. -/
theorem exists_assigned_of_foldlM {assigned : List Literal.Assignment} {args : List String}
    (hb : Assigned layout assigned b) (h : args.foldlM (assign layout) b = .ok b') :
    ∃ later, args.mapM assignmentOf = .ok later ∧ Assigned layout (assigned ++ later) b' := by
  induction args generalizing assigned b with
  | nil =>
    cases h
    exact ⟨[], rfl, by rwa [List.append_nil]⟩
  | cons arg args ih =>
    rw [List.foldlM_cons] at h
    obtain ⟨next, hnext, h⟩ := exists_of_bind_eq_ok h
    obtain ⟨a, ha, hassigned⟩ := exists_assigned_of_assign hb hnext
    obtain ⟨later, hlater, hb'⟩ := ih hassigned h
    refine ⟨a :: later, ?_, by rwa [List.append_assoc] at hb'⟩
    rw [List.mapM_cons, ha, hlater]
    rfl

/-- A stack changes nothing else. -/
theorem assigned_of_addStack {assigned : List Literal.Assignment} {args : List String}
    (hb : Assigned layout assigned b) (h : addStack b args = .ok b') :
    Assigned layout assigned b' := by
  rw [addStack] at h
  split at h
  · cases h
    exact hb
  · obtain ⟨addresses, -, h⟩ := exists_of_bind_eq_ok h
    cases hstack : b.withStack addresses with
    | error e => simp [hstack] at h
    | ok next =>
      simp only [hstack, Except.ok.injEq] at h
      subst h
      have hreachable := hb.reachable.withStack hstack
      obtain rfl := RecordBuilder.withStack_eq_ok hstack
      exact ⟨hreachable, hb.target, hb.codec, hb.flags, hb.key, hb.holds⟩

/-! ## Records -/

/-- What a builder that options describe was assigned. -/
theorem exists_assigned_of_filled {o : BuildOptions} {registry : Registry}
    (h : filled o registry = .ok b) :
    ∃ layout assigned, o.fields.mapM assignmentOf = .ok assigned ∧
      registry.resolve o.key = .ok layout ∧ Assigned layout assigned b := by
  rw [filled] at h
  split at h
  · cases h
  · rename_i layout hlayout
    obtain ⟨b', hb', h⟩ := exists_of_bind_eq_ok h
    obtain ⟨assigned, hassigned, hfields⟩ :=
      exists_assigned_of_foldlM (assigned_forLayout o.provider layout) hb'
    rw [List.nil_append] at hfields
    exact ⟨layout, assigned, hassigned, hlayout, assigned_of_addStack hfields h⟩

/-- What a record that is built comes from. -/
theorem exists_assigned {o : BuildOptions} {registry : Registry} {p : PackedRecord}
    (hcomplete : o.incomplete = false) (h : record o registry = .ok p) :
    ∃ assigned b, o.fields.mapM assignmentOf = .ok assigned ∧
      registry.resolve o.key = .ok p.layout ∧ Assigned p.layout assigned b ∧
      b.pack .complete = .ok p := by
  obtain ⟨b, hb, h⟩ := exists_of_bind_eq_ok h
  obtain ⟨layout, assigned, hassigned, hlayout, hholds⟩ := exists_assigned_of_filled hb
  rw [mode, hcomplete] at h
  cases hpack : b.pack .complete with
  | error e => simp [hpack, ofPack] at h
  | ok p' =>
    obtain rfl : p' = p := by simpa [hpack, ofPack] using h
    obtain ⟨-, hlayout', -⟩ := RecordBuilder.pack_eq_ok hpack
    rw [RecordBuilder.layout, hholds.target] at hlayout'
    obtain rfl := Except.ok.inj hlayout'
    exact ⟨assigned, b, hassigned, hlayout, hholds, hpack⟩

/-- What a machine packs is the record that the options describe. -/
theorem packed_eq_some {o : BuildOptions} {registry : Registry} {built : Except Failure PackedRecord}
    (h : packed o registry = some built) : built = record o registry := by
  rw [packed] at h
  rw [record]
  cases hb : filled o registry with
  | error f =>
    rw [hb] at h
    cases h
    rfl
  | ok b =>
    simp only [hb] at h
    obtain ⟨reply, hreply, rfl⟩ := Option.map_eq_some_iff.1 h
    rw [Machine.eq_pack_of_pack_eq_some hreply]
    rfl

/-- Packing stops a machine exactly if the builder that the options describe does. -/
theorem packed_eq_none_iff {o : BuildOptions} {registry : Registry} :
    packed o registry = none ↔ ∃ b, filled o registry = .ok b ∧ Machine.Stops b (mode o) := by
  rw [packed]
  cases filled o registry with
  | error f => simp
  | ok b => simp [Machine.pack_eq_none_iff]

/-- A registry resolves a key to a layout of that key. -/
theorem key_of_resolve {registry : Registry} {key : LayoutKey}
    (h : registry.resolve key = .ok layout) : layout.key = key := by
  rw [Registry.resolve] at h
  cases hfind : registry.find? key with
  | none => simp [hfind] at h
  | some found =>
    simp only [hfind, Except.ok.injEq] at h
    subst h
    simpa using List.find?_some hfind

theorem key_recordOf (b : RecordBuilder) (data : Bytes) : (b.recordOf data).key = b.key := by
  rw [RecordBuilder.recordOf]
  cases b.stack <;> rfl

/-- A record of a builder whose flags are those of a new one is read back from its document. -/
theorem toRecord_ofRecord_recordOf (hflags : b.header.flags = .singleton .header64Bit)
    (data : Bytes) :
    (RecordDocument.ofRecord (b.recordOf data)).toRecord = .ok (b.recordOf data) := by
  rw [RecordDocument.toRecord_ofRecord_eq_ok_iff, RecordDocument.flags_ofRecord,
    RecordBuilder.recordOf]
  cases b.stack with
  | none => exact ⟨hflags.symm, fun _ => rfl⟩
  | some addresses =>
    have hflags' : b.header.flags.insert .extendedInfo =
        (HeaderFlags.singleton .header64Bit).insert .extendedInfo := by rw [hflags]
    refine ⟨hflags'.symm, fun h => ?_⟩
    cases h

end Build

/-! ## Conditions -/

/-- Whether an assignment spells bytes that do not fill their field of fixed width. -/
def underfills (layout : Layout) (a : Literal.Assignment) : Bool :=
  match layout.field? a.name with
  | none => false
  | some spec =>
    match spec.rule, Literal.parse spec.type a.text with
    | .fixed width, .ok (.bytes data) => data.length < width
    | _, _ => false

/-- A value agrees with itself as it is read back, unless zeros had to fill its field. -/
theorem agrees_filled {layout : Layout} {a : Literal.Assignment} {spec : FieldSpec} {v : FieldValue}
    (h : Spells layout a spec v) : (spec.filled v).agrees v = !underfills layout a := by
  obtain ⟨hspec, hv⟩ := h
  rw [underfills, hspec]
  simp only [hv]
  cases v with
  | scalar s | ansiString s | unicodeString s =>
    cases spec.rule <;> simp [FieldSpec.filled, FieldValue.agrees_refl]
  | bytes data =>
    rw [FieldSpec.filled, FieldSpec.filling]
    cases spec.rule with
    | fixed width =>
      have hfull : data ++ List.replicate (width - data.length) 0 = data ↔ ¬data.length < width := by
        rw [List.append_right_eq_self, List.replicate_eq_nil_iff]
        omega
      simp only [FieldValue.agrees_bytes, hfull, decide_not]
    | nullTerminated | lengthField reference | remainder | counted =>
      simp [FieldValue.agrees_bytes]

theorem result_evaluateAll {μ : Type} (p : FieldReader) (qs : List (Predicate μ)) :
    (Predicate.evaluateAll p qs).result = qs.all fun q => q.holds p := by
  induction qs with
  | nil => rfl
  | cons q qs ih => rw [Predicate.evaluateAll, Evaluation.result_and, ih, List.all_cons, Predicate.holds]

/-- The condition of options that ask for equal fields only. -/
theorem condition_eq_ok {o : ParseOptions} {assigned : List Literal.Assignment}
    (hid : o.eventId = none) (hcontains : o.contains = [])
    (h : o.fieldEq.mapM assignmentOf = .ok assigned) :
    Parse.condition o = .ok (.allOf (assigned.map Parse.fieldEquals)) := by
  rw [Parse.condition, hid, hcontains, h]
  simp [bind, Except.bind, pure, Except.pure]

/-- A condition on a field of a record that is built, in what the record's builder was assigned. -/
theorem holds_fieldEquals {assigned : List Literal.Assignment} {b : RecordBuilder}
    {p : PackedRecord} (hb : Assigned p.layout assigned b) (h : b.pack .complete = .ok p)
    (hsize : p.record.userData.length < lengthBound) {settings : Settings}
    (hsettings : settings.codec = .windows1252) {a : Literal.Assignment} (ha : a ∈ assigned) :
    (Parse.fieldEquals a).holds (p.reader settings) = !underfills p.layout a := by
  obtain ⟨spec, v, hspells, hv⟩ := hb.holds a ha
  obtain ⟨hspec, hname⟩ :=
    (Layout.findField_eq_some_iff p.layout.wellFormed.distinct).1 hspells.1
  have hcodec : b.codec.DecodesEncoded := hb.codec ▸ Codec.decodesEncoded_windows1252
  obtain ⟨v', l, hv', hl, hdecode⟩ := RecordBuilder.exists_located_of_pack hb.reachable hcodec h
    hsize (hsettings.trans hb.codec.symm) hspec
  rw [hname] at hv' hl
  obtain rfl : v = v' := Option.some.inj (hv.symm.trans hv')
  have hvalue : (p.reader settings).value a.name = .ok (spec.filled v) := by
    rw [FieldReader.value_eq hl hdecode, RecordBuilder.readBack, hb.target]
  have hagrees : Parse.literalAgrees a.name a.text (p.reader settings) = !underfills p.layout a := by
    rw [← agrees_filled hspells, Parse.literalAgrees]
    have hfield : (p.reader settings).layout.field? a.name = some spec := hspells.1
    simp only [hfield, hspells.2, hvalue]
  exact hagrees

/-! ## Building and selecting -/

/-- The document of a record that is built is read back as that record, whose layout is the one that it
was built from, and the condition that a field has the value assigned to it holds of the record, unless
the assignment spells bytes that leave some of their field to be filled with zeros. So `parse` keeps the
record with all the assignments as conditions, unless there is such a one among them. -/
theorem keeps_record (o : BuildOptions) (registry : Registry) {p : PackedRecord}
    (hcomplete : o.incomplete = false) (h : Build.record o registry = .ok p)
    (hsize : p.record.userData.length < lengthBound) :
    (RecordDocument.ofRecord p.record).toRecord = .ok p.record ∧
    registry.resolve o.key = .ok p.layout ∧ registry.resolve p.record.key = .ok p.layout ∧
    ∃ assigned, o.fields.mapM assignmentOf = .ok assigned ∧
      ∀ selection : ParseOptions, selection.settings.codec = .windows1252 →
        (∀ a ∈ assigned, (Parse.fieldEquals a).holds (p.reader selection.settings) =
          !underfills p.layout a) ∧
        (selection.fieldEq = o.fields → selection.eventId = none → selection.contains = [] →
          ∃ condition, Parse.condition selection = .ok condition ∧
            condition.keeps (.registry registry) selection.settings p.record =
              assigned.all fun a => !underfills p.layout a) := by
  obtain ⟨assigned, b, hassigned, hresolve, hb, hpack⟩ := Build.exists_assigned hcomplete h
  obtain ⟨-, -, data, -, hrecord⟩ := RecordBuilder.pack_eq_ok hpack
  have hread : (RecordDocument.ofRecord p.record).toRecord = .ok p.record := by
    rw [hrecord]
    exact Build.toRecord_ofRecord_recordOf hb.flags data
  have hkey : p.record.key = o.key := by
    rw [hrecord, Build.key_recordOf, hb.key, Build.key_of_resolve hresolve]
  have hfound : registry.resolve p.record.key = .ok p.layout := hkey ▸ hresolve
  refine ⟨hread, hresolve, hfound, assigned, hassigned, fun selection hcodec => ?_⟩
  have hleaf : ∀ a ∈ assigned,
      (Parse.fieldEquals a).holds (p.reader selection.settings) = !underfills p.layout a :=
    fun a ha => holds_fieldEquals hb hpack hsize hcodec ha
  refine ⟨hleaf, fun hequal hid hcontains => ?_⟩
  refine ⟨_, condition_eq_ok hid hcontains (hequal ▸ hassigned), ?_⟩
  have hsource : (LayoutSource.registry registry).resolve p.record.key = .ok p.layout := hfound
  rw [Predicate.keeps, Predicate.evaluateRecord, hsource]
  simp only [Predicate.evaluate, result_evaluateAll, List.all_map]
  rw [Bool.eq_iff_iff, List.all_eq_true, List.all_eq_true]
  refine forall₂_congr fun a ha => ?_
  rw [← hleaf a ha]
  rfl

/-- A layout with a field for text and a field of four bytes. -/
def labelled : Layout :=
  ⟨⟨1, 0⟩, none, [⟨"Name", .unicodeString, .nullTerminated⟩, ⟨"Blob", .rawBytes, .fixed 4⟩], rfl⟩

def labelling (fields : List String) : BuildOptions where
  manifest := ""
  key := labelled.key
  fields := fields

def selecting (fields : List String) : ParseOptions where
  records := ""
  manifest := ""
  fieldEq := fields

/-- A layout of bytes and a name, whose assignments are given back as a filter. -/
theorem keeps_record_labelling : ∃ p condition,
    Build.record (labelling ["Blob=01020304", "Name=a"]) ⟨[labelled]⟩ = .ok p ∧
    (RecordDocument.ofRecord p.record).toRecord = .ok p.record ∧ p.layout = labelled ∧
    Parse.condition (selecting ["Blob=01020304", "Name=a"]) = .ok condition ∧
    condition.keeps (.registry ⟨[labelled]⟩) {} p.record = true := by
  obtain ⟨hread, -, -, assigned, hassigned, hselection⟩ :=
    keeps_record (labelling ["Blob=01020304", "Name=a"]) ⟨[labelled]⟩ rfl rfl (by decide)
  obtain ⟨-, hkeeps⟩ := hselection (selecting ["Blob=01020304", "Name=a"]) rfl
  obtain ⟨condition, hcondition, hkept⟩ := hkeeps rfl rfl rfl
  refine ⟨_, condition, rfl, hread, rfl, hcondition, hkept.trans ?_⟩
  cases hassigned
  rfl

/-- Two bytes in a field of four are not found in the record that they were put into. -/
theorem misses_padded_bytes : ∃ p condition,
    Build.record (labelling ["Blob=0102", "Name=a"]) ⟨[labelled]⟩ = .ok p ∧
    (RecordDocument.ofRecord p.record).toRecord = .ok p.record ∧
    (Parse.fieldEquals ⟨"Blob", "0102"⟩).holds ⟨p.record, labelled, {}⟩ = false ∧
    Parse.condition (selecting ["Blob=0102", "Name=a"]) = .ok condition ∧
    condition.keeps (.registry ⟨[labelled]⟩) {} p.record = false :=
  ⟨_, _, rfl, rfl, rfl, rfl, rfl⟩

end EventTrace.CommandLine
