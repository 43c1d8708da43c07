import EventTrace.Proofs.Builder.Incomplete
import EventTrace.Proofs.Builder.Renewal
import EventTrace.Proofs.Builder.Steps
import EventTrace.Proofs.Record.StackTrace

/-!
# Stacks stand apart from user data

A record with a stack is cut into user data and a stack region, and its trace yields the words of the
region. A builder that was given addresses does all that it does without them: it takes the same values
and packs the same user data. So a reader, which sees no more than that, answers alike about the two
records, and the addresses are what the trace of the one yields (`RecordBuilder.stack_recovered`).
-/

namespace EventTrace

/-- A flag that was put into a set is in it. -/
theorem HeaderFlags.contains_insert (s : HeaderFlags) (f : HeaderFlag) :
    (s.insert f).contains f = true := by
  have habsorb : (s.bits ||| f.mask) &&& f.mask = f.mask := by
    apply UInt16.eq_of_toBitVec_eq
    ext i hi
    simpa using fun h => .inr h
  have hmask : f.mask ≠ 0 := by cases f <;> decide
  simpa [contains, insert, habsorb] using hmask

/-! ## What readers see -/

namespace FieldReader

variable [Codecs] {p q : FieldReader}

/-- Whether two readers locate, parse and read every field alike. -/
structure Alike (p q : FieldReader) : Prop where
  resolve : p.resolve = q.resolve
  parsed : p.parsed = q.parsed
  read : p.read = q.read
  fields : p.fields = q.fields

/-- A reader sees of a record no more than its user data. -/
theorem alike_of_userData {r r' : Record} (h : r.userData = r'.userData) (layout : Layout)
    (settings : Settings) : Alike ⟨r, layout, settings⟩ ⟨r', layout, settings⟩ := by
  have hdata : data ⟨r, layout, settings⟩ = data ⟨r', layout, settings⟩ := h
  have hafter : locateAfter ⟨r, layout, settings⟩ = locateAfter ⟨r', layout, settings⟩ := by
    funext before spec
    rw [locateAfter, locateAfter, hdata]
  have hlocate : locate ⟨r, layout, settings⟩ = locate ⟨r', layout, settings⟩ := by
    funext name
    rw [locate, locate, hafter]
    rfl
  have hlocated : parseLocated ⟨r, layout, settings⟩ = parseLocated ⟨r', layout, settings⟩ := by
    funext l
    rw [parseLocated, parseLocated, hdata]
  refine ⟨?_, ?_, ?_, ?_⟩
  · funext name
    rw [resolve, resolve, hlocate]
  · funext name
    rw [parsed, parsed, hlocate, hlocated]
  · funext request name
    rw [read, read, hafter, hdata]
    rfl
  · rw [fields, fields, hlocated, hdata]

end FieldReader

/-! ## Records with a stack -/

namespace Record

/-- Whether the body of a record is its user data and then a stack region, whose words, with fewer bytes
behind them than fill one, are the addresses that the trace of the record yields. -/
structure Captures (r : Record) (region : Bytes) : Prop where
  captured : r.stackRegion? = some region
  split : r.userData ++ region = r.body
  words : ∃ trailing, addressBytes r.stack ++ trailing = region ∧
    trailing.length = region.length % addressWidth
  count : r.stack.length = region.length / addressWidth
  yields : (StackTrace.ofRecord r).Yields r.stack

/-- A record with a stack has a region where it was captured. -/
theorem captures {r : Record} (h : r.hasStack = true) : ∃ region, r.Captures region := by
  have hregion : r.stackRegion? = some (r.body.drop r.userLength) := if_pos h
  refine ⟨_, hregion, List.take_append_drop _ _, ⟨_, addressBytes_stack hregion, ?_⟩,
    length_stack hregion, StackTrace.yields_stack r⟩
  rw [List.length_drop, ← Nat.mod_eq_sub_mul_div]

end Record

namespace PackedRecord

variable [Codecs]

/-- Whether a record is another one, that has no stack, with addresses behind its user data. -/
structure IsBacked (p q : PackedRecord) (addresses : List UInt64) : Prop where
  layout : p.layout = q.layout
  userData : p.record.userData = q.record.userData
  header : p.record.header =
    { q.record.header with flags := q.record.header.flags.insert .extendedInfo }
  flagged : p.record.header.flags.contains .extendedInfo = true
  plain : q.record.hasStack = false
  region : ∃ region, p.record.Captures region ∧ region.length = 8 * addresses.length
  stack : p.record.stack = addresses
  alike : ∀ settings, (p.reader settings).Alike (q.reader settings)

end PackedRecord

namespace RecordBuilder

section

variable [Codecs] {b b' : RecordBuilder} {mode : PackMode} {p : PackedRecord}
  {addresses : List UInt64} {s : Step} {ss : List Step}

/-! ## Builders without their addresses -/

def withoutStack (b : RecordBuilder) : RecordBuilder := { b with stack := none }

omit [Codecs] in
theorem withoutStack_of_withStack (h : b.withStack addresses = .ok b') :
    b'.withoutStack = b.withoutStack := by
  rw [withStack_eq_ok h]
  rfl

omit [Codecs] in
/-- An addition does not look at the stack. -/
theorem add_withoutStack (b : RecordBuilder) (a : Addition) :
    b.withoutStack.add a = (b.add a).map withoutStack := by
  have htarget : b.withoutStack.checkTarget a = b.checkTarget a := rfl
  have hvalue : b.withoutStack.value? a.name = b.value? a.name := rfl
  have hopen : b.withoutStack.finalized = b.finalized := rfl
  rw [add, add, htarget, hvalue, hopen]
  split
  · rfl
  · split
    · rfl
    · cases b.checkTarget a <;> rfl

/-- Without addresses the same user data is packed, as all of the body. -/
theorem pack_withoutStack (b : RecordBuilder) (mode : PackMode) :
    b.withoutStack.pack mode =
      (b.pack mode).map fun p => { p with record := .new b.header p.record.userData } := by
  have hcodec : b.withoutStack.codec = b.codec := rfl
  have hvalues : ∀ name, b.withoutStack.value? name = b.value? name := fun name => rfl
  have hencode : b.withoutStack.encodeFields mode = b.encodeFields mode := by
    funext specs
    exact encodeFields_congr hcodec hvalues specs
  have hlayout : b.withoutStack.layout = b.layout := rfl
  have hassemble : b.withoutStack.assemble mode =
      (b.assemble mode).map fun p => { p with record := .new b.header p.record.userData } := by
    rw [assemble, assemble, hlayout, hencode]
    cases b.layout with
    | error e => rfl
    | ok layout =>
      cases hdata : b.encodeFields mode layout.fields with
      | error e => simp only [hdata, Except.map]
      | ok data => simp only [hdata, Except.map, userData_recordOf]; rfl
  have hopen : b.withoutStack.finalized = b.finalized := rfl
  have hmissing : b.withoutStack.missing = b.missing := rfl
  rw [pack, pack, hassemble, hopen, hmissing]
  split
  · rfl
  · split <;> rfl

/-! ## One step -/

/-- A step that sets no addresses does the same without those that there are. -/
theorem step_withoutStack (b : RecordBuilder) (h : s.addresses? = none) :
    b.withoutStack.step s = (b.step s).withoutStack := by
  cases s with
  | recode codec => rfl
  | call c =>
    cases c with
    | add a =>
      rw [step, step, call, call, add_withoutStack]
      cases b.add a <;> rfl
    | withStack addresses => cases h
    | edit change => rfl
    | pack mode =>
      rw [step, step, call, call, pack_withoutStack]
      cases b.pack mode <;> rfl

/-- A step that sets no addresses keeps those that there are, unless it packs. -/
theorem stack_step_of_none (h : s.addresses? = none) (hopen : (b.step s).finalized = false) :
    (b.step s).stack = b.stack := by
  have heffect := b.effect_step s
  generalize b.step s = next at heffect hopen ⊢
  cases heffect with
  | failed | added | edited | recoded => rfl
  | stacked addresses => cases h
  | packed mode => cases hopen

/-! ## All steps -/

/-- Steps that set no stack do the same to a builder that has none. -/
theorem steps_withoutStack (b : RecordBuilder) (h : ∀ s ∈ ss, s.addresses? = none) :
    b.withoutStack.steps ss = (b.steps ss).withoutStack := by
  induction ss generalizing b with
  | nil => rfl
  | cons s ss ih =>
    obtain ⟨hs, hlater⟩ := List.forall_mem_cons.1 h
    have hstep : b.withoutStack.steps (s :: ss) = (b.withoutStack.step s).steps ss := rfl
    rw [hstep, step_withoutStack b hs, ih _ hlater]
    rfl

/-- Steps that set no stack keep the one there is. -/
theorem stack_steps_of_none (h : ∀ s ∈ ss, s.addresses? = none)
    (hopen : (b.steps ss).finalized = false) : (b.steps ss).stack = b.stack := by
  induction ss generalizing b with
  | nil => rfl
  | cons s ss ih =>
    obtain ⟨hs, hlater⟩ := List.forall_mem_cons.1 h
    have hstep : (b.step s).finalized = false := finalized_of_steps ss hopen
    have hrest : (b.steps (s :: ss)).stack = (b.step s).stack := ih hlater hopen
    rw [hrest, stack_step_of_none hs hstep]

/-! ## Packing -/

/-- A record with addresses is the one without them, and the addresses behind its user data. -/
theorem isBacked_of_pack (hstack : b.stack = some addresses) (h : b.pack mode = .ok p) :
    ∃ q, b.withoutStack.pack mode = .ok q ∧ p.IsBacked q addresses := by
  refine ⟨_, by rw [pack_withoutStack, h]; rfl, ?_⟩
  obtain ⟨-, -, data, -, hrecord⟩ := pack_eq_ok h
  have hrecord' : b.recordOf data =
      .withStack { b.header with flags := b.header.flags.insert .extendedInfo }
        (data ++ Record.addressBytes addresses) data.length := by
    rw [recordOf, hstack]
  have hregion : p.record.stackRegion? = some (Record.addressBytes addresses) := by
    rw [hrecord, stackRegion?_recordOf, hstack]
    rfl
  have hflags : p.record.header =
      { b.header with flags := b.header.flags.insert .extendedInfo } := by
    rw [hrecord, hrecord']
    rfl
  obtain ⟨region, hcaptures⟩ := Record.captures (r := p.record) (by rw [hrecord, hrecord']; rfl)
  obtain rfl : Record.addressBytes addresses = region :=
    Option.some.inj (hregion.symm.trans hcaptures.captured)
  refine ⟨rfl, (Record.userData_new _ _).symm, hflags, ?_, rfl, ⟨_, hcaptures, ?_⟩, ?_, ?_⟩
  · rw [hflags]
    exact HeaderFlags.contains_insert _ _
  · exact Record.length_addressBytes addresses
  · rw [Record.stack_eq, hregion, Option.getD_some, Record.addressesIn_addressBytes]
  · intro settings
    exact FieldReader.alike_of_userData (Record.userData_new _ _).symm p.layout settings

/-- The body of a record that is made with a stack is its user data, as long as declared if the body
is, and the stack region, and the trace of the record yields the words of the region. The trace of a
record that is made without a stack yields nothing. A builder that is given addresses, and none after
them, packs what it packs without them, with the addresses behind the user data: the trace yields
them, the header says that there are some, and fields are read as they are without. -/
theorem stack_recovered :
    (∀ header body declared, ∃ region,
      (Record.withStack header body declared).Captures region ∧
        (Record.withStack header body declared).body = body ∧
        (Record.withStack header body declared).userData.length = min declared body.length) ∧
    (∀ header body,
      (Record.new header body).stackRegion? = none ∧ (Record.new header body).stack = [] ∧
        (StackTrace.ofRecord (Record.new header body)).Yields []) ∧
    ∀ (b b' : RecordBuilder) addresses, b.withStack addresses = .ok b' →
      ∀ ss, (∀ s ∈ ss, Step.addresses? s = none) → ∀ mode p, (b'.steps ss).pack mode = .ok p →
        ∃ q, (b.withoutStack.steps ss).pack mode = .ok q ∧ p.IsBacked q addresses := by
  refine ⟨fun header body declared => ?_, fun header body => ?_, ?_⟩
  · obtain ⟨region, hcaptures⟩ := Record.captures (r := .withStack header body declared) rfl
    exact ⟨region, hcaptures, rfl, Record.length_userData _⟩
  · have hnone := Record.stack_new header body
    exact ⟨rfl, hnone, hnone ▸ StackTrace.yields_stack (.new header body)⟩
  · intro b b' addresses hgiven ss hkept mode p hpack
    have hstack : (b'.steps ss).stack = some addresses := by
      rw [stack_steps_of_none hkept (finalized_of_pack hpack), withStack_eq_ok hgiven]
    have hsame : b.withoutStack.steps ss = (b'.steps ss).withoutStack := by
      rw [← withoutStack_of_withStack hgiven, steps_withoutStack b' hkept]
    rw [hsame]
    exact isBacked_of_pack hstack hpack

end

/-- A layout whose last field takes all of the user data that is left. -/
def trailing : Layout :=
  ⟨⟨1, 0⟩, none, [.natural "Code" (.scalar (.word .uint16)), ⟨"Rest", .rawBytes, .remainder⟩], rfl⟩

def fillTrailing : List Step :=
  [.call (.pack .complete), .call (.add (.bytes "Rest" [7, 8, 9])),
    .call (.add (.scalar "Code" (.word .uint16 5)))]

/-- A stack behind a field that takes all that is left. -/
theorem stack_recovered_trailing : ∃ b p,
    (forLayout .nil trailing).withStack [0x1000, 0x2000] = .ok b ∧
    (∀ s ∈ fillTrailing, s.addresses? = none) ∧ (b.steps fillTrailing).pack .complete = .ok p ∧
    p.record.body.length = 21 ∧ p.reader.read .any "Rest" = .ok (.value (.bytes [7, 8, 9])) ∧
    (StackTrace.ofRecord p.record).Yields [0x1000, 0x2000] := by
  obtain ⟨-, -, hbuilder⟩ := stack_recovered
  have hkept : ∀ s ∈ fillTrailing, s.addresses? = none := by simp [fillTrailing, Step.addresses?]
  obtain ⟨q, hplain, hbacked⟩ :=
    hbuilder (forLayout .nil trailing) _ [0x1000, 0x2000] rfl fillTrailing hkept .complete _ rfl
  obtain ⟨region, hcaptures, -⟩ := hbacked.region
  have hread := congrFun (congrFun (hbacked.alike {}).read .any) "Rest"
  refine ⟨_, _, rfl, hkept, rfl, rfl, ?_, hbacked.stack ▸ hcaptures.yields⟩
  cases hplain
  exact hread.trans rfl

end RecordBuilder

end EventTrace
