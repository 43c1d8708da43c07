import EventTrace.Text.Utf8

/-!
# Searching in UTF-8

The first byte of a character differs from all the others, and it settles how many there are. So the bytes
of one text stand among the bytes of another one only where its characters stand among the other's
(`Utf8.exists_of_append_encodeChars_append_eq`): at the start, at the end and anywhere, looking for bytes
finds what looking for characters does.
-/

namespace EventTrace.Utf8

def encodeChars (cs : List Char) : Bytes := cs.flatMap String.utf8EncodeChar

variable {c d : Char} {cs ds : List Char} {a b : Bytes}

@[simp] theorem encodeChars_nil : encodeChars [] = [] := rfl

theorem encodeChars_cons : encodeChars (c :: cs) = String.utf8EncodeChar c ++ encodeChars cs :=
  List.flatMap_cons

@[simp] theorem encodeChars_append : encodeChars (cs ++ ds) = encodeChars cs ++ encodeChars ds :=
  List.flatMap_append

/-- A character begins with a first byte, and has no other one. -/
theorem exists_utf8EncodeChar (c : Char) : ∃ lead rest, String.utf8EncodeChar c = lead :: rest ∧
    lead.IsUTF8FirstByte ∧ ∀ other ∈ rest, ¬other.IsUTF8FirstByte := by
  have hfirst : ∀ (i : Nat) (hi : i < (String.utf8EncodeChar c).length),
      (String.utf8EncodeChar c)[i].IsUTF8FirstByte ↔ i = 0 :=
    fun i hi => UInt8.isUTF8FirstByte_getElem_utf8EncodeChar
  obtain ⟨lead, rest, henc⟩ := List.exists_cons_of_ne_nil (String.utf8EncodeChar_ne_nil (c := c))
  rw [henc] at hfirst
  refine ⟨lead, rest, henc, (hfirst 0 (by simp)).2 rfl, ?_⟩
  intro other hother
  obtain ⟨i, hi, rfl⟩ := List.mem_iff_getElem.1 hother
  intro h
  exact absurd ((hfirst (i + 1) (by simpa using hi)).1 h) (Nat.succ_ne_zero i)

/-- Beyond ASCII, no byte of a character is one of ASCII. -/
theorem le_of_mem_utf8EncodeChar (hc : 128 ≤ c.toNat) {b : UInt8} (hb : b ∈ String.utf8EncodeChar c) :
    128 ≤ b.toNat := by
  have hval : ¬c.val.toNat ≤ 127 := Nat.not_le.2 hc
  rw [String.utf8EncodeChar] at hb
  simp only [if_neg hval] at hb
  split at hb
  · simp only [List.mem_cons, List.not_mem_nil, or_false] at hb
    rcases hb with rfl | rfl <;> rw [UInt8.toNat_ofNat'] <;> omega
  · split at hb
    · simp only [List.mem_cons, List.not_mem_nil, or_false] at hb
      rcases hb with rfl | rfl | rfl <;> rw [UInt8.toNat_ofNat'] <;> omega
    · simp only [List.mem_cons, List.not_mem_nil, or_false] at hb
      rcases hb with rfl | rfl | rfl | rfl <;> rw [UInt8.toNat_ofNat'] <;> omega

theorem utf8EncodeChar_of_ascii (hc : c.toNat < 128) :
    String.utf8EncodeChar c = [UInt8.ofNat c.toNat] := by
  have hval : c.val.toNat ≤ 127 := Nat.le_of_lt_succ hc
  rw [String.utf8EncodeChar]
  simp only [if_pos hval]
  rfl

theorem encodeChars_eq_nil_iff : encodeChars cs = [] ↔ cs = [] := by
  cases cs with
  | nil => simp
  | cons c cs =>
    obtain ⟨lead, rest, henc, -⟩ := exists_utf8EncodeChar c
    simp [encodeChars_cons, henc]

/-- Bytes that begin with a character do so with one only. -/
theorem eq_of_utf8EncodeChar_append_eq
    (h : String.utf8EncodeChar c ++ a = String.utf8EncodeChar d ++ b) : c = d ∧ a = b := by
  have hdecode : ∀ (c : Char) (a : Bytes),
      (String.utf8EncodeChar c ++ a).toByteArray.utf8DecodeChar? 0 = some c := by
    intro c a
    rw [List.toByteArray_append]
    exact ByteArray.utf8DecodeChar?_utf8EncodeChar_append
  have hchar : c = d := by
    rw [← Option.some.injEq, ← hdecode c a, ← hdecode d b, h]
  subst hchar
  exact ⟨rfl, List.append_cancel_left h⟩

/-- Where bytes that begin with those of some characters are characters, they begin with these. -/
theorem exists_of_encodeChars_append_eq (h : encodeChars ds ++ b = encodeChars cs) :
    ∃ back, cs = ds ++ back ∧ encodeChars back = b := by
  induction ds generalizing cs with
  | nil => exact ⟨cs, rfl, h.symm⟩
  | cons d ds ih =>
    cases cs with
    | nil =>
      rw [encodeChars_nil, List.append_eq_nil_iff, encodeChars_eq_nil_iff] at h
      cases h.1
    | cons c cs =>
      rw [encodeChars_cons, encodeChars_cons, List.append_assoc] at h
      obtain ⟨rfl, htail⟩ := eq_of_utf8EncodeChar_append_eq h
      obtain ⟨back, rfl, hback⟩ := ih htail
      exact ⟨back, rfl, hback⟩

/-- The bytes of some characters stand among those of others only where the characters do: their first
byte cannot lie within a character. -/
theorem exists_of_append_encodeChars_append_eq (hds : ds ≠ [])
    (h : a ++ (encodeChars ds ++ b) = encodeChars cs) :
    ∃ front back, cs = front ++ (ds ++ back) ∧ encodeChars front = a ∧ encodeChars back = b := by
  induction cs generalizing a with
  | nil =>
    rw [encodeChars_nil, List.append_eq_nil_iff, List.append_eq_nil_iff, encodeChars_eq_nil_iff] at h
    exact absurd h.2.1 hds
  | cons c cs ih =>
    cases ha : a with
    | nil =>
      rw [ha, List.nil_append] at h
      obtain ⟨back, hcs, hback⟩ := exists_of_encodeChars_append_eq h
      exact ⟨[], back, hcs, rfl, hback⟩
    | cons first others =>
      obtain ⟨lead, rest, henc, -, hrest⟩ := exists_utf8EncodeChar c
      rw [encodeChars_cons] at h
      rcases List.append_eq_append_iff.1 h with ⟨within, hchar, hfound⟩ | ⟨before, rfl, hfound⟩
      · -- the character `c` is not over yet: what is left of it would begin the characters found
        cases within with
        | nil =>
          rw [List.append_nil] at hchar
          obtain ⟨front, back, rfl, hfront, hback⟩ := ih (a := []) hfound
          refine ⟨c :: front, back, rfl, ?_, hback⟩
          rw [encodeChars_cons, hfront, List.append_nil, hchar, ha]
        | cons other within =>
          obtain ⟨d, ds, rfl⟩ := List.exists_cons_of_ne_nil hds
          obtain ⟨lead', rest', henc', hlead', -⟩ := exists_utf8EncodeChar d
          rw [encodeChars_cons, henc', List.cons_append, List.cons_append, List.cons_append,
            List.cons.injEq] at hfound
          rw [henc, ha, List.cons_append, List.cons.injEq] at hchar
          refine absurd (hfound.1 ▸ hlead') (hrest other ?_)
          rw [hchar.2]
          exact List.mem_append_right _ (.head _)
      · obtain ⟨front, back, rfl, hfront, hback⟩ := ih hfound.symm
        refine ⟨c :: front, back, rfl, ?_, hback⟩
        rw [encodeChars_cons, hfront, ha]

/-- Characters with the same bytes are the same. -/
theorem encodeChars_inj : encodeChars cs = encodeChars ds ↔ cs = ds := by
  constructor
  · intro h
    rw [← List.append_nil (encodeChars cs)] at h
    obtain ⟨back, rfl, hback⟩ := exists_of_encodeChars_append_eq h
    rw [encodeChars_eq_nil_iff.1 hback, List.append_nil]
  · rintro rfl
    rfl

/-- Bytes start with those of a text exactly if the characters start with it. -/
theorem encodeChars_isPrefix_iff : encodeChars ds <+: encodeChars cs ↔ ds <+: cs := by
  constructor
  · rintro ⟨b, h⟩
    obtain ⟨back, rfl, -⟩ := exists_of_encodeChars_append_eq h
    exact List.prefix_append ds back
  · rintro ⟨back, rfl⟩
    exact ⟨encodeChars back, encodeChars_append.symm⟩

/-- Bytes contain those of a text exactly if the characters contain it. -/
theorem encodeChars_isInfix_iff : encodeChars ds <:+: encodeChars cs ↔ ds <:+: cs := by
  constructor
  · rintro ⟨a, b, h⟩
    by_cases hds : ds = []
    · exact hds ▸ List.nil_infix
    · rw [List.append_assoc] at h
      obtain ⟨front, back, rfl, -⟩ := exists_of_append_encodeChars_append_eq hds h
      exact ⟨front, back, List.append_assoc ..⟩
  · rintro ⟨front, back, rfl⟩
    exact ⟨encodeChars front, encodeChars back, by simp⟩

/-- Bytes end with those of a text exactly if the characters end with it. -/
theorem encodeChars_isSuffix_iff : encodeChars ds <:+ encodeChars cs ↔ ds <:+ cs := by
  constructor
  · rintro ⟨a, h⟩
    by_cases hds : ds = []
    · exact hds ▸ List.nil_suffix
    · rw [← List.append_nil (encodeChars ds)] at h
      obtain ⟨front, back, rfl, -, hback⟩ := exists_of_append_encodeChars_append_eq hds h
      rw [encodeChars_eq_nil_iff.1 hback, List.append_nil]
      exact List.suffix_append front ds
  · rintro ⟨front, rfl⟩
    exact ⟨encodeChars front, encodeChars_append.symm⟩

end EventTrace.Utf8
