import EventTrace.Builder.Basic
import Mathlib.Data.List.TakeWhile

/-!
# NUL characters

Where the first NUL character of a string stands, and that a string has none. A character is as wide
as an element of its type, and only the places at multiples of the width count, so everything here
goes through the data element by element: first for one element in front of the rest
(`nul?_append`, `nulFree_append`), then by induction on the elements (`elements_induction`).
-/

namespace EventTrace

/-- Induction on the elements of some data: what is shorter than an element, and an element in front
of the rest. -/
theorem elements_induction {width : Nat} (hw : 0 < width) {motive : Bytes → Prop}
    (short : ∀ raw, raw.length < width → motive raw)
    (element : ∀ head rest, head.length = width → motive rest → motive (head ++ rest))
    (raw : Bytes) : motive raw := by
  induction hn : raw.length using Nat.strongRecOn generalizing raw with
  | ind n ih =>
    by_cases hlt : raw.length < width
    · exact short raw hlt
    · have hhead : (raw.take width).length = width := by
        rw [List.length_take]
        omega
      have hrest : (raw.drop width).length < n := by
        rw [List.length_drop]
        omega
      rw [← List.take_append_drop width raw]
      exact element _ _ hhead (ih _ hrest _ rfl)

namespace FieldType

/-- The NUL character of a type. -/
def zeros (t : FieldType) : Bytes := List.replicate t.elementWidth 0

/-- Whether no character of a string is NUL. -/
def NulFree (t : FieldType) (raw : Bytes) : Prop :=
  ∀ k, raw.slice? (k * t.elementWidth) t.elementWidth ≠ some t.zeros

variable (t : FieldType)

@[simp] theorem length_zeros : t.zeros.length = t.elementWidth := List.length_replicate

theorem slice?_append_of_length {head rest : Bytes} {width : Nat} (h : head.length = width)
    (offset length : Nat) :
    Bytes.slice? (head ++ rest) (width + offset) length = rest.slice? offset length := by
  subst h
  simp only [Bytes.slice?, List.length_append, List.drop_append, List.drop_eq_nil_of_le
    (Nat.le_add_right _ _), List.nil_append, Nat.add_sub_cancel_left]
  congr 1
  exact propext ⟨fun h => by omega, fun h => by omega⟩

theorem slice?_zero_append {head rest : Bytes} {width : Nat} (h : head.length = width) :
    Bytes.slice? (head ++ rest) 0 width = some head := by
  subst h
  simp [Bytes.slice?]

/-! ## One element in front of the rest -/

/-- Units are free of a terminator exactly if the first is none and the others are free of one. -/
theorem nulFree_append {head rest : Bytes} (h : head.length = t.elementWidth) :
    t.NulFree (head ++ rest) ↔ head ≠ t.zeros ∧ t.NulFree rest := by
  constructor
  · intro free
    refine ⟨fun hz => free 0 ?_, fun k hk => free (k + 1) ?_⟩
    · rw [Nat.zero_mul, slice?_zero_append h, hz]
    · rw [Nat.succ_mul, Nat.add_comm, slice?_append_of_length h, hk]
  · rintro ⟨hz, free⟩ k hk
    cases k with
    | zero =>
      rw [Nat.zero_mul, slice?_zero_append h] at hk
      exact hz (Option.some.inj hk)
    | succ k =>
      rw [Nat.succ_mul, Nat.add_comm, slice?_append_of_length h] at hk
      exact free k hk

theorem nulFree_of_short {raw : Bytes} (h : raw.length < t.elementWidth) : t.NulFree raw := by
  intro k hk
  have := (Bytes.slice?_eq_some_iff.1 hk).1
  omega

theorem nul?_of_short {raw : Bytes} (h : raw.length < t.elementWidth) : t.nul? raw = none := by
  match t, raw, h with
  | .unicodeString, [], _ => rfl
  | .unicodeString, [_], _ => rfl
  | .unicodeString, _ :: _ :: _, h =>
    simp only [List.length_cons, elementWidth] at h
    omega
  | .scalar _, [], _ | .ansiString, [], _ | .rawBytes, [], _ => rfl
  | .scalar _, _ :: _, h | .ansiString, _ :: _, h | .rawBytes, _ :: _, h =>
    simp [elementWidth] at h

theorem findIdx?_zero_cons (b : UInt8) (rest : Bytes) :
    (b :: rest).findIdx? (· = 0) =
      if [b] = [0] then some 0 else (rest.findIdx? (· = 0)).map (· + 1) := by
  by_cases hb : b = 0 <;> simp [List.findIdx?_cons, hb]

/-- A terminator is the first unit, or one among the others. -/
theorem nul?_append {head rest : Bytes} (h : head.length = t.elementWidth) :
    t.nul? (head ++ rest) =
      if head = t.zeros then some 0 else (t.nul? rest).map (· + t.elementWidth) := by
  match t, head, h with
  | .unicodeString, [low, high], _ =>
    simp [nul?, Utf16.unitNul?, zeros, elementWidth, List.replicate]
  | .scalar _, [b], _ | .ansiString, [b], _ | .rawBytes, [b], _ =>
    exact findIdx?_zero_cons b rest

/-! ## All elements -/

/-- No terminator is found exactly if there is none. -/
theorem nul?_eq_none_iff {raw : Bytes} : t.nul? raw = none ↔ t.NulFree raw := by
  induction raw using elements_induction t.elementWidth_pos with
  | short raw h => simp only [nul?_of_short t h, nulFree_of_short t h]
  | element head rest h ih =>
    rw [nul?_append t h, nulFree_append t h, ← ih]
    by_cases hz : head = t.zeros <;> simp [hz]

theorem nulFree_ansiString_iff {raw : Bytes} : ansiString.NulFree raw ↔ 0 ∉ raw := by
  rw [← nul?_eq_none_iff]
  show raw.findIdx? (fun b => decide (b = 0)) = none ↔ 0 ∉ raw
  rw [List.findIdx?_eq_none_iff]
  constructor
  · intro h hzero
    simpa using h 0 hzero
  · rintro h b hb
    rw [decide_eq_false_iff_not]
    rintro rfl
    exact h hb

/-- A string whose bytes hold no NUL character is free of it. -/
theorem nulFree_of_hasNul (ht : t.isString = true) {raw : Bytes}
    (h : RecordBuilder.hasNul t raw = false) : t.NulFree raw := by
  cases t with
  | scalar s => cases ht
  | ansiString => exact nulFree_ansiString_iff.2 (by simpa [RecordBuilder.hasNul] using h)
  | unicodeString =>
    rw [← nul?_eq_none_iff]
    simpa [RecordBuilder.hasNul, nul?] using h
  | rawBytes => cases ht

/-- Bytes free of terminators pass the check for them. -/
theorem hasNul_of_nulFree {raw : Bytes} (h : t.NulFree raw) :
    RecordBuilder.hasNul t raw = false := by
  cases t with
  | scalar s => rfl
  | ansiString => simpa [RecordBuilder.hasNul] using nulFree_ansiString_iff.1 h
  | unicodeString =>
    have hnul := (nul?_eq_none_iff _).2 h
    rw [nul?] at hnul
    simp [RecordBuilder.hasNul, hnul]
  | rawBytes => rfl

/-- The first NUL character stands behind the characters before it. -/
theorem nul?_append_zeros {value : Bytes} (whole : t.elementWidth ∣ value.length)
    (free : t.NulFree value) (rest : Bytes) :
    t.nul? (value ++ (t.zeros ++ rest)) = some value.length := by
  induction value using elements_induction t.elementWidth_pos with
  | short value h =>
    have hnil : value = [] := List.eq_nil_of_length_eq_zero (Nat.eq_zero_of_dvd_of_lt whole h)
    subst hnil
    rw [List.nil_append, nul?_append t t.length_zeros, if_pos rfl, List.length_nil]
  | element head value h ih =>
    obtain ⟨hz, free⟩ := (nulFree_append t h).1 free
    rw [List.length_append, h] at whole
    rw [List.append_assoc, nul?_append t h, if_neg hz, ih ((Nat.dvd_add_right ⟨1, by simp⟩).1 whole)
      free]
    simp [h, Nat.add_comm]

/-- A terminator that is found splits the bytes, and before it there is no other. -/
theorem exists_of_nul?_eq_some {raw : Bytes} {n : Nat} (hn : t.nul? raw = some n) :
    ∃ value rest, raw = value ++ (t.zeros ++ rest) ∧ value.length = n ∧
      t.elementWidth ∣ n ∧ t.NulFree value := by
  induction raw using elements_induction t.elementWidth_pos generalizing n with
  | short raw h => rw [nul?_of_short t h] at hn; cases hn
  | element head rest h ih =>
    rw [nul?_append t h] at hn
    by_cases hz : head = t.zeros
    · rw [if_pos hz] at hn
      cases hn
      exact ⟨[], rest, by rw [hz]; rfl, rfl, ⟨0, rfl⟩, nulFree_of_short t t.elementWidth_pos⟩
    · rw [if_neg hz] at hn
      obtain ⟨m, hm, rfl⟩ := Option.map_eq_some_iff.1 hn
      obtain ⟨value, rest', rfl, rfl, hdvd, free⟩ := ih hm
      exact ⟨head ++ value, rest', by simp, by simp [h, Nat.add_comm],
        (Nat.dvd_add_right hdvd).2 ⟨1, (Nat.mul_one _).symm⟩, (nulFree_append t h).2 ⟨hz, free⟩⟩

/-! ## What stands before the first one -/

/-- The characters of a string before its first NUL. -/
def stem (raw : Bytes) : Bytes := raw.take ((t.nul? raw).getD raw.length)

variable {t} {raw : Bytes}

theorem stem_of_nulFree (h : t.NulFree raw) : t.stem raw = raw := by
  rw [stem, t.nul?_eq_none_iff.2 h, Option.getD_none, List.take_length]

/-- A string that is not free of NUL goes on behind its characters with one. -/
theorem exists_stem (h : ¬t.NulFree raw) :
    ∃ rest, raw = t.stem raw ++ (t.zeros ++ rest) ∧ t.NulFree (t.stem raw) := by
  obtain ⟨n, hn⟩ : ∃ n, t.nul? raw = some n := by
    rwa [← t.nul?_eq_none_iff, ← ne_eq, Option.ne_none_iff_exists'] at h
  obtain ⟨value, rest, rfl, rfl, -, free⟩ := t.exists_of_nul?_eq_some hn
  have hstem : t.stem (value ++ (t.zeros ++ rest)) = value := by
    rw [stem, hn, Option.getD_some, List.take_left]
  rw [hstem]
  exact ⟨rest, rfl, free⟩

/-- Before its first terminator, a text is free of them. -/
theorem nulFree_stem (raw : Bytes) : t.NulFree (t.stem raw) := by
  by_cases h : t.NulFree raw
  · rwa [stem_of_nulFree h]
  · obtain ⟨rest, -, free⟩ := exists_stem h
    exact free

theorem length_stem_le (raw : Bytes) : (t.stem raw).length ≤ raw.length :=
  List.length_take_le' _ _

/-- Nothing is cut off exactly if there is no terminator. -/
theorem length_stem_eq_iff : (t.stem raw).length = raw.length ↔ t.NulFree raw := by
  constructor
  · intro hlength
    by_contra h
    obtain ⟨rest, hraw, -⟩ := exists_stem h
    have hpos := t.elementWidth_pos
    have hsum := congrArg List.length hraw
    simp only [List.length_append, length_zeros] at hsum
    omega
  · intro h
    rw [stem_of_nulFree h]

theorem stem_unicodeString (raw : Bytes) :
    unicodeString.stem raw = raw.take ((Utf16.unitNul? raw).getD raw.length) := rfl

/-- The bytes of a narrow text end before the first zero. -/
theorem stem_ansiString (raw : Bytes) :
    ansiString.stem raw = raw.takeWhile fun b => decide (b ≠ 0) := by
  have hall : ∀ {data : Bytes}, ansiString.NulFree data →
      ∀ b ∈ data, decide (b ≠ 0) = true := fun free b hb =>
    decide_eq_true fun h => nulFree_ansiString_iff.1 free (h ▸ hb)
  by_cases h : ansiString.NulFree raw
  · rw [stem_of_nulFree h, List.takeWhile_eq_self_iff.2 (hall h)]
  · obtain ⟨rest, hraw, free⟩ := exists_stem h
    symm
    calc raw.takeWhile (fun b => decide (b ≠ 0))
      _ = (ansiString.stem raw ++ (ansiString.zeros ++ rest)).takeWhile
          (fun b => decide (b ≠ 0)) := congrArg _ hraw
      _ = ansiString.stem raw ++ (ansiString.zeros ++ rest).takeWhile
          (fun b => decide (b ≠ 0)) := List.takeWhile_append_of_pos (hall free)
      _ = ansiString.stem raw := by simp [zeros, elementWidth]

end FieldType

end EventTrace
