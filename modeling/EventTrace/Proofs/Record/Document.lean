import EventTrace.Proofs.Text.Hex
import EventTrace.Record.Document

/-!
# Records and their documents

The document of a record has all of the record but the flags of its header, and the length of the
user data only where a stack was captured. So exactly the records whose flags say no more than that,
and whose user data is the whole body where there is no stack, are read back
(`RecordDocument.toRecord_ofRecord_eq_ok_iff`).
-/

namespace EventTrace.RecordDocument

theorem header_ofRecord (r : Record) :
    (ofRecord r).header = { r.header with flags := (ofRecord r).flags } := rfl

theorem toRecord_ofRecord (r : Record) :
    (ofRecord r).toRecord = .ok ((ofRecord r).withBody r.body) := by
  have hbody : (ofRecord r).body = Hex.encode r.body := rfl
  rw [toRecord, hbody, Hex.decode_encode]
  rfl

theorem withBody_of_stack {r : Record} (hstack : r.hasStack = true) :
    (ofRecord r).withBody r.body =
      .withStack (ofRecord r).header r.body r.userLength := by
  have hdeclared : (ofRecord r).declared = some r.userLength := if_pos hstack
  rw [withBody, hdeclared]

theorem withBody_of_noStack {r : Record} (hstack : r.hasStack = false) :
    (ofRecord r).withBody r.body = .new (ofRecord r).header r.body := by
  have hdeclared : (ofRecord r).declared = none := if_neg (by simp [hstack])
  rw [withBody, hdeclared]

theorem flags_ofRecord (r : Record) :
    (ofRecord r).flags =
      if r.hasStack then (HeaderFlags.singleton .header64Bit).insert .extendedInfo
      else .singleton .header64Bit := by
  rw [flags, ofRecord]
  cases r.hasStack <;> rfl

/-- The records that are read back from their documents. -/
theorem toRecord_ofRecord_eq_ok_iff {r : Record} :
    (ofRecord r).toRecord = .ok r ↔
      (ofRecord r).flags = r.header.flags ∧
        (r.hasStack = false → r.userLength = r.body.length) := by
  rw [toRecord_ofRecord, Except.ok.injEq]
  have hle := r.userLength_le
  have hheader : (ofRecord r).header = r.header ↔ (ofRecord r).flags = r.header.flags := by
    rw [header_ofRecord]
    exact ⟨fun h => congrArg EventHeader.flags h, fun h => by rw [h]⟩
  cases hstack : r.hasStack with
  | true =>
    rw [withBody_of_stack hstack, ← hheader]
    constructor
    · intro h
      refine ⟨congrArg Record.header h, fun hfalse => ?_⟩
      cases hfalse
    · rintro ⟨h, -⟩
      rw [h]
      obtain ⟨header, body, userLength, hasStack, hbound⟩ := r
      simp_all [Record.withStack]
  | false =>
    rw [withBody_of_noStack hstack, ← hheader]
    constructor
    · intro h
      refine ⟨congrArg Record.header h, fun _ => ?_⟩
      rw [← h]
      rfl
    · rintro ⟨h, hlength⟩
      rw [h]
      obtain ⟨header, body, userLength, hasStack, hbound⟩ := r
      simp_all [Record.new]

end EventTrace.RecordDocument
