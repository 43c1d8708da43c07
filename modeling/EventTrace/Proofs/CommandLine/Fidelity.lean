import EventTrace.Proofs.Builder.Steps
import EventTrace.Proofs.CommandLine.Build

/-!
# Documents are faithful

The document of a record describes that record, but for header flags that only a caller sets. So what a
builder packs is described exactly, unless its flags were edited. A document describes a record exactly
if its body is hexadecimal text, and the document of that record is the same document in normal form: the
text in lower case, and no more user data than there are bytes (`RecordDocument.document_faithful`).
-/

namespace EventTrace

/-! ## The records that there are -/

namespace Record

/-- A record is made with user data only or with a stack. -/
inductive Made : Record → Prop
  | new (header : EventHeader) (body : Bytes) : Made (.new header body)
  | withStack (header : EventHeader) (body : Bytes) (declared : Nat) :
    Made (.withStack header body declared)

/-- The flags that a document has for a record: 64 bits, and extended information for a stack. -/
def documentFlags (hasStack : Bool) : HeaderFlags :=
  if hasStack then (HeaderFlags.singleton .header64Bit).insert .extendedInfo
  else .singleton .header64Bit

/-- The record with the flags that a document has for it, and all else as it is. -/
def reflagged (r : Record) : Record :=
  { r with header := { r.header with flags := documentFlags r.hasStack } }

variable {r : Record}

theorem Made.userLength (h : r.Made) (hstack : r.hasStack = false) : r.userLength = r.body.length := by
  cases h with
  | new header body => rfl
  | withStack header body declared => cases hstack

theorem reflagged_of_flags (h : r.header.flags = documentFlags r.hasStack) : r.reflagged = r := by
  rw [reflagged, ← h]

end Record

namespace RecordDocument

variable {r : Record} {d : RecordDocument}

/-! ## From a record and back -/

/-- The document of a record describes it, with the flags that documents have. -/
theorem toRecord_ofRecord_of_made (h : r.Made) : (ofRecord r).toRecord = .ok r.reflagged := by
  have hheader : (ofRecord r).header = r.reflagged.header := by
    rw [header_ofRecord, flags_ofRecord]
    rfl
  rw [toRecord_ofRecord]
  cases hstack : r.hasStack with
  | true =>
    rw [withBody_of_stack hstack, Record.withStack, hheader]
    simp only [Nat.min_eq_left r.userLength_le, Record.reflagged, hstack]
  | false =>
    rw [withBody_of_noStack hstack, Record.new, hheader]
    simp only [← h.userLength hstack, Record.reflagged, hstack]

/-! ## From a document and back -/

theorem made_withBody (d : RecordDocument) (data : Bytes) : (d.withBody data).Made := by
  rw [withBody]
  cases d.declared with
  | some declared => exact .withStack _ _ _
  | none => exact .new _ _

/-- A record that a document describes has no flags of its own. -/
theorem reflagged_withBody (d : RecordDocument) (data : Bytes) :
    (d.withBody data).reflagged = d.withBody data := by
  apply Record.reflagged_of_flags
  rw [withBody]
  cases hdeclared : d.declared with
  | some declared =>
    show d.flags = _
    rw [flags, hdeclared]
    rfl
  | none =>
    show d.flags = _
    rw [flags, hdeclared]
    rfl

/-- The document of the record that a document describes. -/
theorem ofRecord_withBody (d : RecordDocument) (data : Bytes) :
    ofRecord (d.withBody data) =
      { d with body := Hex.encode data, declared := d.declared.map (min · data.length) } := by
  rw [withBody]
  cases d.declared <;> rfl

/-- A document gives a record only of the bytes that its body spells. -/
theorem toRecord_eq_ok (h : d.toRecord = .ok r) :
    ∃ data, Hex.decode d.body = .ok data ∧ r = d.withBody data := by
  rw [toRecord] at h
  cases hdata : Hex.decode d.body with
  | error f =>
    rw [hdata] at h
    cases h
  | ok data =>
    rw [hdata] at h
    exact ⟨data, rfl, (Except.ok.inj h).symm⟩

theorem toRecord_eq_error_iff : (∃ f, d.toRecord = .error f) ↔ ¬Hex.IsText d.body := by
  rw [← Hex.exists_decode_iff, toRecord]
  cases Hex.decode d.body <;> simp [Except.map]

/-- A document in normal form: its text in lower case, and no more user data than there are bytes. -/
def normal (d : RecordDocument) : RecordDocument :=
  { d with
    body := d.body.toLower
    declared := d.declared.map (min · (d.body.length / 2)) }

theorem ofRecord_toRecord (h : d.toRecord = .ok r) : ofRecord r = d.normal := by
  obtain ⟨data, hdata, rfl⟩ := toRecord_eq_ok h
  rw [ofRecord_withBody, Hex.encode_of_decode hdata, Hex.length_of_decode hdata]
  rfl

theorem toRecord_ofRecord_toRecord (h : d.toRecord = .ok r) : (ofRecord r).toRecord = .ok r := by
  obtain ⟨data, -, rfl⟩ := toRecord_eq_ok h
  rw [toRecord_ofRecord_of_made (made_withBody d data), reflagged_withBody]

end RecordDocument

/-! ## Flags of a builder -/

namespace RecordBuilder

section

variable [Codecs] {start : RecordBuilder} {s : Step} {ss : List Step}

/-- Whether a step leaves the flags of every header as they are. -/
def Step.KeepsFlags : Step → Prop
  | .call (.edit change) => ∀ header, (change header).flags = header.flags
  | _ => True

/-- A builder before its first step. -/
inductive IsStart : RecordBuilder → Prop
  | new (providerId : Guid) (eventId : UInt16) (version : UInt8) :
    IsStart (.new providerId eventId version)
  | forLayout (providerId : Guid) (layout : Layout) : IsStart (.forLayout providerId layout)

theorem flags_step (b : RecordBuilder) (h : s.KeepsFlags) :
    (b.step s).header.flags = b.header.flags := by
  have heffect := b.effect_step s
  generalize b.step s = next at heffect ⊢
  cases heffect with
  | failed | added | stacked | packed | recoded => rfl
  | edited change => exact h b.header

/-- Steps that set no flags leave those of the header as they were. -/
theorem flags_steps (b : RecordBuilder) (h : ∀ s ∈ ss, s.KeepsFlags) :
    (b.steps ss).header.flags = b.header.flags := by
  induction ss generalizing b with
  | nil => rfl
  | cons s ss ih =>
    obtain ⟨hs, hlater⟩ := List.forall_mem_cons.1 h
    have hrest : (b.steps (s :: ss)).header.flags = (b.step s).header.flags := ih _ hlater
    rw [hrest, flags_step b hs]

omit [Codecs] in
theorem IsStart.flags (h : start.IsStart) : start.header.flags = .singleton .header64Bit := by
  cases h <;> rfl

end

end RecordBuilder

namespace RecordDocument

/-- The document of a record describes that record, with 64 bits and, for a stack, extended information
as its flags; so it describes exactly what a builder packs whose flags were left as they are. A document
describes a record exactly if its body is an even number of hexadecimal digits. The document of that
record is the same one in normal form, and describes the same record. -/
theorem document_faithful [Codecs] :
    (∀ r : Record, r.Made → (ofRecord r).toRecord = .ok r.reflagged) ∧
    (∀ (start : RecordBuilder) ss, start.IsStart → (∀ s ∈ ss, RecordBuilder.Step.KeepsFlags s) →
      ∀ mode p, (start.steps ss).pack mode = .ok p →
        (ofRecord p.record).toRecord = .ok p.record) ∧
    ∀ d : RecordDocument, ((∃ f, d.toRecord = .error f) ↔ ¬Hex.IsText d.body) ∧
      ∀ r, d.toRecord = .ok r → ofRecord r = d.normal ∧ (ofRecord r).toRecord = .ok r := by
  refine ⟨fun r h => toRecord_ofRecord_of_made h, ?_, fun d => ⟨toRecord_eq_error_iff, ?_⟩⟩
  · intro start ss hstart hkept mode p hpack
    have hflags := (RecordBuilder.flags_steps start hkept).trans hstart.flags
    obtain ⟨-, -, data, -, hrecord⟩ := RecordBuilder.pack_eq_ok hpack
    rw [hrecord]
    exact CommandLine.Build.toRecord_ofRecord_recordOf hflags data
  · intro r h
    exact ⟨ofRecord_toRecord h, toRecord_ofRecord_toRecord h⟩

/-- A record with flags that documents do not have. -/
def flagged : Record :=
  .withStack { EventHeader.new .nil 1 0 with flags := .singleton .stringOnly } [1, 2, 3] 2

/-- Steps that leave the flags as they are: a value, a change of the level, and a stack. -/
def leveled : List RecordBuilder.Step :=
  [.call (.add (.scalar "Code" (.word .uint16 7))),
    .call (.edit fun header => { header with level := 4 }), .call (.withStack [1])]

/-- A document in mixed case that declares more user data than there are bytes. -/
def overlong : RecordDocument :=
  { ofRecord (.new (.new .nil 1 0) []) with body := "0AfF", declared := some 9 }

theorem normal_overlong : overlong.normal = { overlong with body := "0aff", declared := some 2 } := by
  have hlower : "0AfF".toLower = "0aff" := by
    rw [← String.toList_inj, Hex.toList_toLower]
    rfl
  rw [normal]
  congr 1

/-- A record whose flags are dropped, a packed one, and a document whose length is not that of its
body. -/
theorem document_faithful_overlong :
    flagged.Made ∧ (ofRecord flagged).toRecord = .ok flagged.reflagged ∧
    flagged.reflagged ≠ flagged ∧
    (∃ p, ((RecordBuilder.new .nil 1 0).steps leveled).pack .complete = .ok p ∧
      (ofRecord p.record).toRecord = .ok p.record) ∧
    ∃ r, overlong.toRecord = .ok r ∧
      ofRecord r = { overlong with body := "0aff", declared := some 2 } := by
  obtain ⟨hrecords, hbuilders, hdocuments⟩ := document_faithful
  have hmade : flagged.Made := .withStack _ _ _
  refine ⟨hmade, hrecords flagged hmade, by decide, ⟨_, rfl, ?_⟩, _, rfl, ?_⟩
  · refine hbuilders (.new .nil 1 0) leveled (.new _ _ _) ?_ .complete _ rfl
    intro s hs
    rcases List.mem_cons.1 hs with rfl | hs
    · exact trivial
    rcases List.mem_cons.1 hs with rfl | hs
    · exact fun header => rfl
    · obtain rfl := List.mem_singleton.1 hs
      exact trivial
  · obtain ⟨-, hread⟩ := hdocuments overlong
    rw [(hread _ rfl).1, normal_overlong]

end RecordDocument

end EventTrace
