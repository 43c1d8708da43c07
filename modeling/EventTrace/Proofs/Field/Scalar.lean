import EventTrace.Record.Basic

/-!
# Scalars: reading what was written

Bytes in the width of a scalar type always spell a scalar of that type, and the bytes of a scalar
spell that scalar again, bit for bit.
-/

namespace EventTrace.Scalar

/-- A scalar is read back from its bytes. -/
theorem ofBytes?_toBytes (s : Scalar) : ofBytes? s.type s.toBytes = some s := by
  cases s with
  | word t w =>
    have hw : w.toNat % wordCount (8 * t.width) = w.toNat := Nat.mod_eq_of_lt w.isLt
    simp only [type, toBytes, ofBytes?, Bytes.length_ofNatLE, if_true, Bytes.toNatLE_ofNatLE, hw,
      BitVec.ofNat_toNat, BitVec.setWidth_eq]
  | boolean b => cases b <;> rfl
  | guid g =>
    simp only [type, toBytes, ofBytes?, Guid.ofBytes?, Guid.length_toBytes, dif_pos,
      Guid.ofBytes_toBytes, Option.map_some]

/-- Any bytes of the width of a type are a scalar of it. -/
theorem exists_ofBytes? {t : ScalarType} {raw : Bytes} (h : raw.length = t.width) :
    ∃ s, ofBytes? t raw = some s ∧ s.type = t := by
  cases t with
  | word w => exact ⟨_, if_pos h, rfl⟩
  | boolean => exact ⟨_, if_pos h, rfl⟩
  | guid => exact ⟨_, congrArg (Option.map Scalar.guid) (dif_pos h), rfl⟩

theorem read?_of_length {t : ScalarType} {raw : Bytes} (h : raw.length = t.width) :
    read? t raw = ofBytes? t raw := by
  have hraw : raw.slice? 0 t.width = some raw := by
    rw [Bytes.slice?_eq_some_iff, ← h]
    exact ⟨by omega, List.take_length⟩
  rw [read?, hraw]
  rfl

/-- A scalar is read from bytes in its width. -/
theorem read_of_length {t : ScalarType} {raw : Bytes} (h : raw.length = t.width) (what : String) :
    ∃ s, ofBytes? t raw = some s ∧ s.type = t ∧ read t raw what = .ok s := by
  obtain ⟨s, hs, ht⟩ := exists_ofBytes? h
  refine ⟨s, hs, ht, ?_⟩
  rw [read, read?_of_length h, hs]

/-- An integer spells a number. -/
theorem exists_integer? {s : Scalar} (h : s.type.isIntegral = true) :
    ∃ n, (FieldValue.scalar s).integer? = some n := by
  cases s with
  | word t w => exact ⟨_, if_pos h⟩
  | boolean b => cases h
  | guid g => cases h

end EventTrace.Scalar
