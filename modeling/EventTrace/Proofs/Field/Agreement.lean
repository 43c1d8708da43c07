import EventTrace.Proofs.Builder.Refusal

/-!
# Values that agree

Filters compare values by what they mean: two strings by their characters, anything else by its type and
the bytes that a builder writes for it (`FieldValue.agrees_wire`). Equality as values is not reflexive
because of the floating-point numbers, and the comparison never comes to it for these, so values that
agree are an equivalence.
-/

namespace EventTrace

namespace Scalar

variable {s t : Scalar}

/-- Scalars are equal as values exactly if they are the same, unless both are floating-point numbers of
one width. -/
theorem equals_iff (h32 : ∀ v w, s = .word .float32 v → t ≠ .word .float32 w)
    (h64 : ∀ v w, s = .word .float64 v → t ≠ .word .float64 w) : s.equals t = true ↔ s = t := by
  cases s with
  | boolean a => cases t <;> simp [equals]
  | guid g => cases t <;> simp [equals]
  | word type v =>
    cases t with
    | boolean b => simp [equals]
    | guid g => simp [equals]
    | word type' w =>
      by_cases htype : type = type'
      · subst htype
        cases type with
        | float32 => exact absurd rfl (h32 v w rfl)
        | float64 => exact absurd rfl (h64 v w rfl)
        | int8 | int16 | int32 | int64 | uint8 | uint16 | uint32 | uint64 | pointer | filetime
        | hexInt32 | hexInt64 => simp [equals, BitVec.toNat_inj]
      · simp [equals, htype]

/-- What is no number is not even equal to itself. -/
example : equals (.word .float64 0x7FF8000000000001) (.word .float64 0x7FF8000000000001) = false := by
  decide

/-- Scalars of one type with the same bytes are the same. -/
theorem eq_of_toBytes_eq (htype : s.type = t.type) (h : s.toBytes = t.toBytes) : s = t := by
  have hread := ofBytes?_toBytes t
  rw [← htype, ← h, ofBytes?_toBytes] at hread
  exact Option.some.inj hread

end Scalar

namespace FieldValue

variable {a b c : FieldValue}

theorem isString_type : a.type.isString = a.text?.isSome := by
  cases a <;> rfl

/-- Values agree exactly if they are strings with the same text, or if they are no strings and the
same. -/
theorem agrees_iff : a.agrees b = true ↔
    (∃ s, a.text? = some s ∧ b.text? = some s) ∨ a.text? = none ∧ a = b := by
  unfold agrees
  split
  · simp [text?]
  · simp [text?]
  · rename_i h32 h64
    rw [isString_type, isString_type]
    cases a with
    | ansiString s | unicodeString s =>
      cases b <;> simp [text?, equals, eq_comm]
    | bytes data =>
      cases b <;> simp [text?, equals]
    | scalar s =>
      cases b with
      | ansiString t | unicodeString t | bytes data => simp [text?, equals]
      | scalar t =>
        have hequals : s.equals t = true ↔ s = t := by
          refine Scalar.equals_iff (fun v w hs ht => ?_) fun v w hs ht => ?_
          · exact h32 v w (congrArg scalar hs) (congrArg scalar ht)
          · exact h64 v w (congrArg scalar hs) (congrArg scalar ht)
        simp [text?, equals, hequals]

theorem agrees_bytes (data data' : Bytes) :
    (bytes data).agrees (bytes data') = decide (data = data') := rfl

theorem agrees_refl (a : FieldValue) : a.agrees a = true := by
  rw [agrees_iff]
  cases ha : a.text? with
  | none => exact .inr ⟨rfl, rfl⟩
  | some s => exact .inl ⟨s, rfl, rfl⟩

theorem agrees_symm (h : a.agrees b = true) : b.agrees a = true := by
  rw [agrees_iff] at h ⊢
  rcases h with ⟨s, ha, hb⟩ | ⟨hnone, rfl⟩
  · exact .inl ⟨s, hb, ha⟩
  · exact .inr ⟨hnone, rfl⟩

theorem agrees_trans (h : a.agrees b = true) (h' : b.agrees c = true) : a.agrees c = true := by
  rw [agrees_iff] at h h' ⊢
  rcases h with ⟨s, ha, hb⟩ | ⟨hnone, rfl⟩
  · rcases h' with ⟨t, hb', hc⟩ | ⟨hnone, rfl⟩
    · obtain rfl : s = t := Option.some.inj (hb.symm.trans hb')
      exact .inl ⟨s, ha, hc⟩
    · exact .inl ⟨s, ha, hb⟩
  · exact h'

/-- Values that are no strings are the same if they have one type and the same bytes. -/
theorem eq_of_encode_eq [Codecs] {codec : Codec} {raw : Bytes} (ha : a.text? = none)
    (htype : a.type = b.type) (hraw : a.encode codec = .ok raw) (hraw' : b.encode codec = .ok raw) :
    a = b := by
  cases a with
  | ansiString s | unicodeString s => cases ha
  | bytes data =>
    cases b with
    | bytes data' => exact congrArg bytes (Except.ok.inj (hraw.trans hraw'.symm))
    | scalar t | ansiString t | unicodeString t => cases htype
  | scalar s =>
    cases b with
    | scalar t =>
      have hbytes := Except.ok.inj (hraw.trans hraw'.symm)
      exact congrArg scalar (Scalar.eq_of_toBytes_eq (FieldType.scalar.inj htype) hbytes)
    | ansiString t | unicodeString t | bytes data => cases htype

/-- A value that is no text always has bytes. -/
theorem exists_encode [Codecs] (codec : Codec) (ha : a.text? = none) :
    ∃ raw, a.encode codec = .ok raw := by
  cases a with
  | ansiString s | unicodeString s => cases ha
  | bytes data => exact ⟨data, rfl⟩
  | scalar s => exact ⟨s.toBytes, rfl⟩

/-- Values agree exactly if both are strings with the same characters, or neither is a string and they
have one type and the same bytes under a builder. So values that agree are an equivalence, whatever bits
they have, and numbers of different types never agree. -/
theorem agrees_wire [Codecs] (codec : Codec) (name : String) :
    (∀ a b : FieldValue, a.agrees b = true ↔
      (∃ s, a.text? = some s ∧ b.text? = some s) ∨
      a.type.isString = false ∧ b.type.isString = false ∧ a.type = b.type ∧
        ∃ raw, RecordBuilder.encodeValue codec name a = .ok raw ∧
          RecordBuilder.encodeValue codec name b = .ok raw) ∧
    (Equivalence fun a b : FieldValue => a.agrees b = true) ∧
    ∀ s t : Scalar, s.type ≠ t.type → (scalar s).agrees (scalar t) = false := by
  refine ⟨fun a b => ?_, ⟨agrees_refl, agrees_symm, agrees_trans⟩, fun s t htype => ?_⟩
  · simp only [RecordBuilder.encodeValue_eq_ok_iff, isString_type, Option.isSome_eq_false_iff,
      Option.isNone_iff_eq_none]
    rw [agrees_iff]
    constructor
    · rintro (htexts | ⟨hnone, rfl⟩)
      · exact .inl htexts
      · obtain ⟨raw, hraw⟩ := exists_encode codec hnone
        exact .inr ⟨hnone, hnone, rfl, raw, hraw, hraw⟩
    · rintro (htexts | ⟨hnone, -, htype, raw, hraw, hraw'⟩)
      · exact .inl htexts
      · exact .inr ⟨hnone, eq_of_encode_eq hnone htype hraw hraw'⟩
  · rw [Bool.eq_false_iff, ne_eq, agrees_iff]
    rintro (⟨text, hs, -⟩ | ⟨-, hsame⟩)
    · cases hs
    · exact htype (congrArg Scalar.type (scalar.inj hsame))

theorem agrees_wire_widths :
    (scalar (.word .int32 2)).integer? = (scalar (.word .int64 2)).integer? ∧
    (scalar (.word .int32 2)).agrees (scalar (.word .int64 2)) = false :=
  ⟨rfl, (agrees_wire .windows1252 "").2.2 _ _ (by decide)⟩

end FieldValue

end EventTrace
