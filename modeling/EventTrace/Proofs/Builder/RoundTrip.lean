import EventTrace.Proofs.Builder.Encode
import EventTrace.Proofs.Builder.Reachable
import EventTrace.Proofs.Reading.Walk

/-!
# Reading undoes packing

The user data of a complete record is one part for each field of its layout and no rest
(`RecordBuilder.exists_parts_of_pack`), so a reader finds every field, the fields lie one behind the
other from the start of the data to its end, and each holds the value that was added
(`RecordBuilder.read_pack`).
-/

namespace EventTrace

/-! ## Segments one behind the other -/

/-- Whether segments lie one behind the other between two offsets. -/
def Tiles (start : Nat) : List Segment → Nat → Prop
  | [], stop => start = stop
  | s :: later, stop => s.offset = start ∧ Tiles s.stop later stop

/-- Parts laid one after the other tile the bytes they come to. -/
theorem tiles_locatedFrom (start : Nat) (parts : List Part) :
    Tiles start ((locatedFrom start parts).map Located.segment)
      (start + (bytesOf parts).length) := by
  induction parts generalizing start with
  | nil => rfl
  | cons p parts ih =>
    refine ⟨rfl, ?_⟩
    have := ih (start + p.bytes.length)
    rw [Nat.add_assoc, ← List.length_append, ← bytesOf_cons] at this
    exact this

namespace RecordBuilder

section

variable [Codecs] {b : RecordBuilder} {mode : PackMode} {data : Bytes} {p : PackedRecord}

/-! ## Values of fields -/

/-- Whether a builder has a value of the declared type for every one of some fields. -/
def Supplies (b : RecordBuilder) (specs : List FieldSpec) : Prop :=
  ∀ spec ∈ specs, ∃ v, b.value? spec.name = some v ∧ v.type = spec.type

omit [Codecs] in
theorem value?_eq_some {name : String} {v : FieldValue} (h : b.value? name = some v) :
    ∃ a ∈ b.additions, a.name = name ∧ a.value = v := by
  rw [value?] at h
  obtain ⟨a, ha, rfl⟩ := Option.map_eq_some_iff.1 h
  exact ⟨a, List.mem_of_find?_eq_some ha, by simpa using List.find?_some ha, rfl⟩

omit [Codecs] in
/-- A bound builder has values of the declared types. -/
theorem type_of_target (hb : b.Typed) {layout : Layout} (htarget : b.target = some layout)
    {spec : FieldSpec} (hspec : spec ∈ layout.fields) {v : FieldValue}
    (hv : b.value? spec.name = some v) : v.type = spec.type := by
  obtain ⟨a, ha, hname, rfl⟩ := value?_eq_some hv
  obtain ⟨spec', hspec', htype⟩ := hb layout htarget a ha
  rw [Layout.field?, hname,
    (Layout.findField_eq_some_iff layout.wellFormed.distinct).2 ⟨hspec, rfl⟩] at hspec'
  cases hspec'
  exact htype.symm

omit [Codecs] in
/-- A bound builder misses nothing exactly if it has a value for every field. -/
theorem missing_eq_nil_iff {layout : Layout} (htarget : b.target = some layout) :
    b.missing = [] ↔ ∀ spec ∈ layout.fields, (b.value? spec.name).isSome := by
  simp [missing, htarget, Option.isSome_iff_ne_none]

omit [Codecs] in
/-- A bound builder that misses nothing has values of the declared types for every field. -/
theorem supplies_of_target (hb : b.Typed) {layout : Layout} (htarget : b.target = some layout)
    (hmissing : b.missing = []) : b.Supplies layout.fields := by
  intro spec hspec
  have hsupplied := (missing_eq_nil_iff htarget).1 hmissing spec hspec
  obtain ⟨v, hv⟩ := Option.isSome_iff_exists.1 hsupplied
  exact ⟨v, hv, type_of_target hb htarget hspec hv⟩

omit [Codecs] in
/-- The fields of a derived layout are what was added. -/
theorem derivedLayout_eq_ok {layout : Layout} (h : b.derivedLayout = .ok layout) :
    layout.fields = b.additions.map Addition.toSpec := by
  rw [derivedLayout] at h
  split at h
  · rename_i hlayout
    cases h
    exact Layout.fields_of_ofFields hlayout
  · cases h

omit [Codecs] in
/-- A builder finds the value of each of its additions. -/
theorem value?_toSpec {layout : Layout} (h : b.derivedLayout = .ok layout) {a : Addition}
    (ha : a ∈ b.additions) : b.value? a.name = some a.value := by
  have hdistinct := layout.wellFormed.distinct
  rw [derivedLayout_eq_ok h, List.map_map] at hdistinct
  obtain ⟨v, hv⟩ : ∃ v, b.value? a.name = some v := by
    rw [← Option.isSome_iff_exists, value?, Option.isSome_map, List.find?_isSome]
    exact ⟨a, ha, by simp⟩
  obtain ⟨a', ha', hname, rfl⟩ := value?_eq_some hv
  rw [hv, List.inj_on_of_nodup_map hdistinct ha' ha hname]

omit [Codecs] in
/-- A builder has the values of the layout that it derives. -/
theorem supplies_of_derivedLayout {layout : Layout} (h : b.derivedLayout = .ok layout) :
    b.Supplies layout.fields := by
  intro spec hspec
  rw [derivedLayout_eq_ok h] at hspec
  obtain ⟨a, ha, rfl⟩ := List.mem_map.1 hspec
  exact ⟨a.value, value?_toSpec h ha, rfl⟩

/-! ## Packed records -/

omit [Codecs] in
@[simp] theorem userData_recordOf (b : RecordBuilder) (data : Bytes) :
    (b.recordOf data).userData = data := by
  rw [recordOf]
  cases b.stack with
  | none => exact Record.userData_new _ _
  | some addresses => simp [Record.withStack, Record.userData]

/-- The bytes of fields are those of the parts that their values make up. -/
theorem exists_parts_of_encodeFields {specs : List FieldSpec} (hall : b.Supplies specs)
    (h : b.encodeFields mode specs = .ok data) :
    ∃ parts, parts.map Part.spec = specs ∧ bytesOf parts = data ∧
      ∀ q ∈ parts, ∃ v raw, b.Encodes mode q v raw := by
  induction specs generalizing data with
  | nil =>
    cases h
    exact ⟨[], rfl, rfl, by simp⟩
  | cons spec specs ih =>
    obtain ⟨v, hv, htype⟩ := hall spec List.mem_cons_self
    obtain ⟨head, rest, hhead, hlater, rfl⟩ := (encodeFields_cons_eq_ok_iff hv).1 h
    obtain ⟨q, raw, rfl, rfl, hq⟩ := exists_encodes hv htype hhead
    obtain ⟨parts, rfl, rfl, hparts⟩ :=
      ih (fun spec hspec => hall spec (List.mem_cons_of_mem _ hspec)) hlater
    refine ⟨q :: parts, rfl, rfl, fun q' hq' => ?_⟩
    rcases List.mem_cons.1 hq' with rfl | hq'
    · exact ⟨v, raw, hq⟩
    · exact hparts q' hq'

/-- Whether values whose length is in another field are shorter than any length that is refused. -/
def Countable (b : RecordBuilder) (specs : List FieldSpec) : Prop :=
  ∀ spec ∈ specs, ∀ reference v raw, spec.rule = .lengthField reference →
    b.value? spec.name = some v → v.encode b.codec = .ok raw → raw.length < lengthBound

/-- The values of a record that is short enough are. -/
theorem countable_of_encodes {parts : List Part}
    (hparts : ∀ q ∈ parts, ∃ v raw, b.Encodes mode q v raw)
    (hsize : (bytesOf parts).length < lengthBound) : b.Countable (parts.map Part.spec) := by
  intro spec hspec reference v raw hrule hv hraw
  obtain ⟨q, hq, rfl⟩ := List.mem_map.1 hspec
  obtain ⟨v', raw', h⟩ := hparts q hq
  obtain rfl : v = v' := Option.some.inj (hv.symm.trans h.value)
  obtain rfl : raw = raw' := Except.ok.inj (hraw.symm.trans h.encode)
  obtain ⟨before, after, rfl⟩ := List.append_of_mem hq
  have hvalue := congrArg List.length h.value_eq
  rw [bytesOf_append, bytesOf_cons] at hsize
  simp only [List.length_append, Part.length_bytes] at hsize hvalue
  omega

/-- The parts that a complete record is made of conform to its layout. -/
theorem decomposes_of_encodes {parts : List Part} (hwf : Layout.WellFormed (parts.map Part.spec))
    (hparts : ∀ q ∈ parts, ∃ v raw, b.Encodes .complete q v raw)
    (hcount : b.Countable (parts.map Part.spec)) (strict : Bool) :
    Decomposes strict (bytesOf parts) parts [] := by
  have hsuits : ∀ before q after, parts = before ++ q :: after →
      q.spec.SuitsAfter (before.map Part.spec) ∧ (q.spec.rule = .remainder → after = []) := by
    rintro before q after rfl
    rw [List.map_append, List.map_cons] at hwf
    exact ⟨hwf.suits rfl, fun hrule => List.map_eq_nil_iff.1 (hwf.last rfl hrule)⟩
  refine ⟨(List.append_nil _).symm, fun before q after heq => ?_⟩
  obtain ⟨hs, hlast⟩ := hsuits before q after heq
  subst heq
  obtain ⟨v, raw, hq⟩ := hparts q (by simp)
  refine hq.conforms (fun q' hq' => ?_) hs (fun hrule => ?_) (fun reference hrule => ?_)
  · obtain ⟨v', raw', h'⟩ := hparts q' (List.mem_append_left _ hq')
    obtain ⟨before', after', rfl⟩ := List.append_of_mem hq'
    have hs' := (hsuits before' q' (after' ++ q :: after) (by simp)).1
    exact ⟨_, v', raw', hs', h'⟩
  · rw [hlast hrule]
    rfl
  · exact hcount q.spec (List.mem_map_of_mem (by simp)) reference v raw hrule hq.value hq.encode

omit [Codecs] in
/-- The layout of a builder is its target, or else the one its additions make. -/
theorem layout_eq_ok {layout : Layout} (h : b.layout = .ok layout) :
    b.target = some layout ∨ b.target = none ∧ b.derivedLayout = .ok layout := by
  rw [RecordBuilder.layout] at h
  split at h
  · rename_i htarget
    cases h
    exact .inl htarget
  · rename_i htarget
    exact .inr ⟨htarget, h⟩

omit [Codecs] in
theorem layout_of_target {layout : Layout} (htarget : b.target = some layout) :
    b.layout = .ok layout := by
  rw [RecordBuilder.layout, htarget]

/-- What packs was not packed before. -/
theorem finalized_of_pack (h : b.pack mode = .ok p) : b.finalized = false := by
  rw [pack] at h
  split at h
  · cases h
  · rename_i hopen
    simpa using hopen

/-- What packing answers when it succeeds. -/
theorem pack_eq_ok (h : b.pack mode = .ok p) :
    (mode = .complete → b.missing = []) ∧ b.layout = .ok p.layout ∧
      ∃ data, b.encodeFields mode p.layout.fields = .ok data ∧ p.record = b.recordOf data := by
  rw [pack] at h
  split at h
  · cases h
  · split at h
    · cases h
    · rename_i hmissing
      rw [assemble] at h
      cases hlayout : b.layout with
      | error e => simp [hlayout] at h
      | ok layout =>
        cases hdata : b.encodeFields mode layout.fields with
        | error e => simp [hlayout, hdata] at h
        | ok data =>
          simp only [hlayout, hdata, Except.ok.injEq] at h
          subst h
          exact ⟨fun hmode => not_not.1 fun hne => hmissing ⟨hmode, hne⟩, rfl, data, hdata, rfl⟩

theorem layout_of_pack {layout : Layout} (htarget : b.target = some layout)
    (h : b.pack mode = .ok p) : p.layout = layout :=
  Except.ok.inj ((pack_eq_ok h).2.1.symm.trans (layout_of_target htarget))

/-- A builder that misses nothing it needs packs what the fields of its layout are encoded to. -/
theorem pack_eq_map {layout : Layout} (hopen : b.finalized = false)
    (hmissing : mode = .complete → b.missing = []) (hlayout : b.layout = .ok layout) :
    b.pack mode = (b.encodeFields mode layout.fields).map fun data => ⟨b.recordOf data, layout⟩ := by
  have hall : ¬(mode = .complete ∧ b.missing ≠ []) := fun h => h.2 (hmissing h.1)
  simp only [pack, hopen, Bool.false_eq_true, if_false, if_neg hall, assemble, hlayout]
  cases b.encodeFields mode layout.fields <;> rfl

/-- What packing takes. -/
theorem pack_eq {layout : Layout} (hopen : b.finalized = false)
    (hmissing : mode = .complete → b.missing = []) (hlayout : b.layout = .ok layout)
    (hdata : b.encodeFields mode layout.fields = .ok data) :
    b.pack mode = .ok ⟨b.recordOf data, layout⟩ := by
  rw [pack_eq_map hopen hmissing hlayout, hdata]
  rfl

/-- A complete record is the parts that its values make up. -/
theorem exists_encodes_of_pack (hb : b.Reachable) (h : b.pack .complete = .ok p) :
    ∃ parts, parts.map Part.spec = p.layout.fields ∧ bytesOf parts = p.record.userData ∧
      ∀ q ∈ parts, ∃ v raw, b.Encodes .complete q v raw := by
  obtain ⟨hmissing, hlayout, data, hdata, hrecord⟩ := pack_eq_ok h
  have hall : b.Supplies p.layout.fields := by
    rcases layout_eq_ok hlayout with htarget | ⟨-, hderived⟩
    · exact supplies_of_target hb.typed htarget (hmissing rfl)
    · exact supplies_of_derivedLayout hderived
  obtain ⟨parts, hspecs, rfl, hparts⟩ := exists_parts_of_encodeFields hall hdata
  exact ⟨parts, hspecs, by rw [hrecord, userData_recordOf], hparts⟩

/-- The values of a complete record that is short enough are. -/
theorem countable_of_pack (hb : b.Reachable) (h : b.pack .complete = .ok p)
    (hsize : p.record.userData.length < lengthBound) : b.Countable p.layout.fields := by
  obtain ⟨parts, hspecs, hbytes, hparts⟩ := exists_encodes_of_pack hb h
  rw [← hspecs]
  exact countable_of_encodes hparts (hbytes ▸ hsize)

/-- A complete record is one part for each field of its layout and no rest. -/
theorem exists_parts_of_countable (hb : b.Reachable) (h : b.pack .complete = .ok p)
    (hcount : b.Countable p.layout.fields) :
    ∃ parts, parts.map Part.spec = p.layout.fields ∧
      (∀ q ∈ parts, ∃ v raw, b.Encodes .complete q v raw) ∧
      ∀ strict, Decomposes strict p.record.userData parts [] := by
  obtain ⟨parts, hspecs, hbytes, hparts⟩ := exists_encodes_of_pack hb h
  refine ⟨parts, hspecs, hparts, fun strict => ?_⟩
  rw [← hbytes]
  exact decomposes_of_encodes (hspecs ▸ p.layout.wellFormed) hparts (hspecs ▸ hcount) strict

theorem exists_parts_of_pack (hb : b.Reachable) (h : b.pack .complete = .ok p)
    (hsize : p.record.userData.length < lengthBound) :
    ∃ parts, parts.map Part.spec = p.layout.fields ∧
      (∀ q ∈ parts, ∃ v raw, b.Encodes .complete q v raw) ∧
      ∀ strict, Decomposes strict p.record.userData parts [] :=
  exists_parts_of_countable hb h (countable_of_pack hb h hsize)

/-! ## Reading -/

/-- The value that is read for a field of a packed record: as it was added, but with zeros behind
bytes that do not fill their field of the layout that the builder is bound to. -/
def readBack (b : RecordBuilder) (spec : FieldSpec) (v : FieldValue) : FieldValue :=
  match b.target with
  | some _ => spec.filled v
  | none => v

omit [Codecs] in
/-- In a derived layout bytes fill their field. -/
theorem filled_of_derivedLayout {layout : Layout} (h : b.derivedLayout = .ok layout)
    {spec : FieldSpec} (hspec : spec ∈ layout.fields) {v : FieldValue}
    (hv : b.value? spec.name = some v) : spec.filled v = v := by
  rw [derivedLayout_eq_ok h] at hspec
  obtain ⟨a, ha, rfl⟩ := List.mem_map.1 hspec
  obtain rfl : a.value = v := Option.some.inj ((value?_toSpec h ha).symm.trans hv)
  have htakes := a.takes
  cases hvalue : a.value with
  | scalar s | ansiString s | unicodeString s => rfl
  | bytes data =>
    rw [hvalue, FieldValue.Takes] at htakes
    simp [FieldSpec.filled, FieldSpec.filling, Addition.toSpec, htakes]

omit [Codecs] in
/-- What stands in the record of a value is what reading gives back. -/
theorem filled_eq_readBack {layout : Layout} (h : b.layout = .ok layout) {spec : FieldSpec}
    (hspec : spec ∈ layout.fields) {v : FieldValue} (hv : b.value? spec.name = some v) :
    spec.filled v = b.readBack spec v := by
  rcases layout_eq_ok h with htarget | ⟨htarget, hderived⟩
  · rw [readBack, htarget]
  · rw [readBack, htarget]
    exact filled_of_derivedLayout hderived hspec hv

/-- A reader locates every field of a complete record, where the field's value as it was added is
decoded. -/
theorem exists_located_of_countable (hb : b.Reachable) (hcodec : b.codec.DecodesEncoded)
    (h : b.pack .complete = .ok p) (hcount : b.Countable p.layout.fields)
    {settings : Settings} (hsettings : settings.codec = b.codec) {spec : FieldSpec}
    (hspec : spec ∈ p.layout.fields) :
    ∃ v l, b.value? spec.name = some v ∧ (p.reader settings).locate spec.name = .ok l ∧
      l.decode settings p.record.userData = .ok (b.readBack spec v) := by
  obtain ⟨-, hlayout, -⟩ := pack_eq_ok h
  obtain ⟨parts, hspecs, hparts, hd⟩ := exists_parts_of_countable hb h hcount
  have hreads : (p.reader settings).Reads p.layout.fields.length parts [] :=
    ⟨hspecs.trans List.take_length.symm, hd settings.strict⟩
  have hmem := hspec
  rw [← hspecs] at hmem
  obtain ⟨q, hq, rfl⟩ := List.mem_map.1 hmem
  obtain ⟨v, raw, hencodes⟩ := hparts q hq
  obtain ⟨before, after, rfl⟩ := List.append_of_mem hq
  have hs := p.layout.wellFormed.suits hreads.fields_split
  have hdecode := hencodes.decode_eq hcodec hs hsettings (bytesOf before).length
  rw [filled_eq_readBack hlayout hspec hencodes.value, ← hreads.decomposes.decode_eq] at hdecode
  exact ⟨v, _, hencodes.value, hreads.locate_eq, hdecode⟩

theorem exists_located_of_pack (hb : b.Reachable) (hcodec : b.codec.DecodesEncoded)
    (h : b.pack .complete = .ok p) (hsize : p.record.userData.length < lengthBound)
    {settings : Settings} (hsettings : settings.codec = b.codec) {spec : FieldSpec}
    (hspec : spec ∈ p.layout.fields) :
    ∃ v l, b.value? spec.name = some v ∧ (p.reader settings).locate spec.name = .ok l ∧
      l.decode settings p.record.userData = .ok (b.readBack spec v) :=
  exists_located_of_countable hb hcodec h (countable_of_pack hb h hsize) hsettings hspec

/-- Reading a complete record gives back the values that were added, whether a missing terminator is
tolerated or not, and the fields lie one behind the other from the start of the user data to its end.
The bytes of a record are fewer than a word can count. -/
theorem read_pack (hb : b.Reachable) (hcodec : b.codec.DecodesEncoded)
    (h : b.pack .complete = .ok p) (hsize : p.record.userData.length < lengthBound)
    {settings : Settings} (hsettings : settings.codec = b.codec) :
    (∀ spec ∈ p.layout.fields, ∃ v, b.value? spec.name = some v ∧
      (p.reader settings).read .any spec.name = .ok (.value (b.readBack spec v))) ∧
    ∃ segments, p.layout.fields.map (fun spec => (p.reader settings).resolve spec.name) =
        segments.map .ok ∧ Tiles 0 segments p.record.userData.length := by
  constructor
  · intro spec hspec
    obtain ⟨v, l, hv, hl, hdecode⟩ :=
      exists_located_of_pack hb hcodec h hsize hsettings hspec
    exact ⟨v, hv, FieldReader.read_any_eq hl hdecode⟩
  · obtain ⟨parts, hspecs, hparts, hd⟩ := exists_parts_of_pack hb h hsize
    have hreads : (p.reader settings).Reads p.layout.fields.length parts [] :=
      ⟨hspecs.trans List.take_length.symm, hd settings.strict⟩
    have htiles := tiles_locatedFrom 0 parts
    rw [Nat.zero_add] at htiles
    refine ⟨(locatedOf parts).map Located.segment, hreads.map_resolve, ?_⟩
    rw [(hd true).length_eq, List.length_nil, Nat.add_zero]
    exact htiles

end

/-- A builder of a record whose layout has a field wider than its bytes. -/
def widened : RecordBuilder :=
  ((forLayout .nil ⟨⟨1, 0⟩, none, [⟨"Name", .unicodeString, .nullTerminated⟩,
    ⟨"Data", .rawBytes, .fixed 4⟩], rfl⟩).run
      [.add (.bytes "Data" [1, 2]), .add (.unicode "Name" "a")]).1

theorem reachable_widened : widened.Reachable := (Reachable.forLayout _ _).run _

/-- Two bytes in a field of four, read back with the zeros that fill it. -/
theorem read_pack_widened : ∃ p, widened.pack .complete = .ok p ∧
    p.reader.read .any "Data" = .ok (.value (.bytes [1, 2, 0, 0])) ∧
    ∃ segments, p.layout.fields.map (fun spec => p.reader.resolve spec.name) =
      segments.map .ok ∧ Tiles 0 segments p.record.userData.length := by
  refine ⟨_, rfl, ?_⟩
  have hsettings : ({} : Settings).codec = widened.codec := rfl
  obtain ⟨hread, hsegments⟩ :=
    read_pack reachable_widened Codec.decodesEncoded_windows1252 rfl (by decide) hsettings
  obtain ⟨v, hv, hdata⟩ := hread ⟨"Data", .rawBytes, .fixed 4⟩ (.tail _ (.head _))
  cases hv
  exact ⟨hdata, hsegments⟩

end RecordBuilder

end EventTrace
