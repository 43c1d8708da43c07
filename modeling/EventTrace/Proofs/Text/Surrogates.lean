import EventTrace.Proofs.Text.Utf16
import Mathlib.Order.Bounds.Basic
import Mathlib.Order.Nat

/-!
# Which bytes are UTF-16

Units are those of a text exactly if each surrogate among them is half of a pair, which is a matter of
neighbouring places and not of the way in which the units are gone through (`exists_decodeUnits_iff`).
The search for a NUL takes unit by unit and ends at the least even place where two zero bytes stand
(`unitNul?_eq_some_iff`).
-/

namespace EventTrace.Utf16

/-! ## Pairs -/

/-- Whether every surrogate is half of a pair: a low one comes right behind each high one, and right
before each low one there is a high one. -/
structure Paired (us : List UInt16) : Prop where
  high : ∀ i u, us[i]? = some u → isHigh u = true →
    ∃ low, us[i + 1]? = some low ∧ isLow low = true
  low : ∀ i u, us[i]? = some u → isLow u = true →
    ∃ j high, i = j + 1 ∧ us[j]? = some high ∧ isHigh high = true

variable {us vs : List UInt16} {u high low : UInt16}

theorem isLow_of_isHigh (h : isHigh u = true) : isLow u = false := by
  simp only [isHigh, Bool.and_eq_true, decide_eq_true_eq] at h
  simp only [isLow, Bool.and_eq_false_iff, decide_eq_false_iff_not]
  omega

theorem paired_nil : Paired [] := ⟨by simp, by simp⟩

/-- A unit that is no surrogate stands alone. -/
theorem paired_singleton (hhigh : isHigh u = false) (hlow : isLow u = false) : Paired [u] := by
  refine ⟨fun i v hv hvhigh => ?_, fun i v hv hvlow => ?_⟩
  · obtain ⟨rfl, rfl⟩ : i = 0 ∧ u = v := by simpa [List.getElem?_singleton] using hv
    exact absurd hvhigh (by simp [hhigh])
  · obtain ⟨rfl, rfl⟩ : i = 0 ∧ u = v := by simpa [List.getElem?_singleton] using hv
    exact absurd hvlow (by simp [hlow])

/-- A high surrogate and a low one stand together. -/
theorem paired_pair (hhigh : isHigh high = true) (hlow : isLow low = true) : Paired [high, low] := by
  refine ⟨fun i u hu huhigh => ?_, fun i u hu hulow => ?_⟩
  · match i, hu with
    | 0, _ => exact ⟨low, rfl, hlow⟩
    | 1, hu =>
      obtain rfl : low = u := Option.some.inj hu
      rw [isLow_of_isHigh huhigh] at hlow
      cases hlow
  · match i, hu with
    | 0, hu =>
      obtain rfl : high = u := Option.some.inj hu
      rw [isLow_of_isHigh hhigh] at hulow
      cases hulow
    | 1, _ => exact ⟨0, high, rfl, rfl, hhigh⟩

/-- Behind units whose surrogates are paired, no unit takes part in a pair with one of these. -/
theorem paired_append_iff (hus : Paired us) : Paired (us ++ vs) ↔ Paired vs := by
  have hleft : ∀ {i}, i < us.length → (us ++ vs)[i]? = us[i]? := List.getElem?_append_left
  have hright : ∀ i, (us ++ vs)[us.length + i]? = vs[i]? := fun i => by
    rw [List.getElem?_append_right (Nat.le_add_right _ _), Nat.add_sub_cancel_left]
  constructor
  · intro h
    refine ⟨fun i u hu huhigh => ?_, fun i u hu hulow => ?_⟩
    · rw [← hright] at hu
      obtain ⟨low, hlow⟩ := h.high _ u hu huhigh
      rw [Nat.add_assoc, hright] at hlow
      exact ⟨low, hlow⟩
    · rw [← hright] at hu
      obtain ⟨j, high, hj, hget, hhigh⟩ := h.low _ u hu hulow
      cases i with
      | zero =>
        -- the high half would be the last of the first units, with nothing behind it among them
        rw [hleft (by omega)] at hget
        obtain ⟨low, hnext, -⟩ := hus.high j high hget hhigh
        rw [← hj, Nat.add_zero, List.getElem?_eq_none (Nat.le_refl _)] at hnext
        cases hnext
      | succ i =>
        obtain rfl : j = us.length + i := by omega
        rw [hright] at hget
        exact ⟨i, high, rfl, hget, hhigh⟩
  · intro h
    refine ⟨fun i u hu huhigh => ?_, fun i u hu hulow => ?_⟩
    · rcases Nat.lt_or_ge i us.length with hi | hi
      · rw [hleft hi] at hu
        obtain ⟨low, hnext, hlow⟩ := hus.high i u hu huhigh
        have hi' := (List.getElem?_eq_some_iff.1 hnext).1
        exact ⟨low, (hleft hi').trans hnext, hlow⟩
      · obtain ⟨k, rfl⟩ := Nat.exists_eq_add_of_le hi
        rw [hright] at hu
        obtain ⟨low, hnext, hlow⟩ := h.high k u hu huhigh
        exact ⟨low, by rw [Nat.add_assoc, hright, hnext], hlow⟩
    · rcases Nat.lt_or_ge i us.length with hi | hi
      · rw [hleft hi] at hu
        obtain ⟨j, high, rfl, hget, hhigh⟩ := hus.low i u hu hulow
        exact ⟨j, high, rfl, (hleft (by omega)).trans hget, hhigh⟩
      · obtain ⟨k, rfl⟩ := Nat.exists_eq_add_of_le hi
        rw [hright] at hu
        obtain ⟨j, high, rfl, hget, hhigh⟩ := h.low k u hu hulow
        exact ⟨us.length + j, high, rfl, (hright j).trans hget, hhigh⟩

theorem exists_map_eq_ok_iff {ε α β : Type} {x : Except ε α} {f : α → β} :
    (∃ b, x.map f = .ok b) ↔ ∃ a, x = .ok a := by
  cases x <;> simp [Except.map]

/-- The units that spell characters are those whose surrogates are paired. -/
theorem exists_decodeUnits_iff : (∃ cs, decodeUnits us = .ok cs) ↔ Paired us := by
  induction us using decodeUnits.induct with
  | case1 => exact ⟨fun _ => paired_nil, fun _ => ⟨[], rfl⟩⟩
  | case2 u hhigh =>
    constructor
    · rintro ⟨cs, h⟩
      simp [decodeUnits, hhigh] at h
    · intro h
      obtain ⟨low, hnext, -⟩ := h.high 0 u rfl hhigh
      cases hnext
  | case3 high hhigh low tail hlow ih =>
    rw [decodeUnits_pair hhigh hlow, exists_map_eq_ok_iff, ih]
    exact (paired_append_iff (paired_pair hhigh hlow)).symm
  | case4 high hhigh low tail hlow =>
    constructor
    · rintro ⟨cs, h⟩
      simp [decodeUnits, hhigh, hlow] at h
    · intro h
      obtain ⟨low', hnext, hlow'⟩ := h.high 0 high rfl hhigh
      obtain rfl : low = low' := Option.some.inj hnext
      exact absurd hlow' hlow
  | case5 u tail hhigh hlow =>
    constructor
    · rintro ⟨cs, h⟩
      simp [decodeUnits.eq_def, hhigh, hlow] at h
    · intro h
      obtain ⟨j, high, hj, -⟩ := h.low 0 u rfl hlow
      cases hj
  | case6 u tail hhigh hlow ih =>
    rw [Bool.not_eq_true] at hhigh hlow
    rw [decodeUnits_plain hhigh hlow, exists_map_eq_ok_iff, ih]
    exact (paired_append_iff (paired_singleton hhigh hlow)).symm

/-- The bytes of texts: an even number of them, in whose units the surrogates are paired. -/
theorem exists_decode_iff {data : Bytes} :
    (∃ s, decode data = .ok s) ↔ data.length % 2 = 0 ∧ Paired (units data) := by
  rw [← exists_decodeUnits_iff, decode, readUnits_eq]
  split
  · rename_i hodd
    simp [hodd]
  · rename_i heven
    rw [exists_map_eq_ok_iff, and_iff_right (by omega)]

/-! ## NUL -/

/-- Whether two zero bytes stand at an even place. -/
def NulAt (data : Bytes) (i : Nat) : Prop := i % 2 = 0 ∧ data[i]? = some 0 ∧ data[i + 1]? = some 0

theorem nulAt_cons_cons {low high : UInt8} {rest : Bytes} {i : Nat} :
    NulAt (low :: high :: rest) i ↔
      (i = 0 ∧ low = 0 ∧ high = 0) ∨ ∃ j, i = j + 2 ∧ NulAt rest j := by
  match i with
  | 0 => simp [NulAt]
  | 1 => simp [NulAt]
  | j + 2 => simp [NulAt]

/-- The first NUL is the least even place with two zero bytes. -/
theorem unitNul?_eq_some_iff {data : Bytes} {n : Nat} :
    unitNul? data = some n ↔ IsLeast {i | NulAt data i} n := by
  induction data using unitNul?.induct generalizing n with
  | case1 low high rest hzero =>
    have hleast : IsLeast {i | NulAt (low :: high :: rest) i} 0 :=
      ⟨nulAt_cons_cons.2 (.inl ⟨rfl, hzero⟩), fun i _ => Nat.zero_le i⟩
    rw [unitNul?, if_pos hzero, Option.some.injEq]
    constructor
    · rintro rfl
      exact hleast
    · intro h
      exact hleast.unique h
  | case2 low high rest hzero ih =>
    have hplace : ∀ {i}, NulAt (low :: high :: rest) i ↔ ∃ j, i = j + 2 ∧ NulAt rest j := by
      intro i
      rw [nulAt_cons_cons, or_iff_right (fun h => hzero h.2)]
    rw [unitNul?, if_neg hzero, Option.map_eq_some_iff]
    constructor
    · rintro ⟨j, hj, rfl⟩
      obtain ⟨hnul, hleast⟩ := ih.1 hj
      refine ⟨hplace.2 ⟨j, rfl, hnul⟩, fun i hi => ?_⟩
      obtain ⟨k, rfl, hk⟩ := hplace.1 hi
      exact Nat.add_le_add_right (hleast hk) 2
    · rintro ⟨hnul, hleast⟩
      obtain ⟨j, rfl, hj⟩ := hplace.1 hnul
      refine ⟨j, ih.2 ⟨hj, fun k hk => ?_⟩, rfl⟩
      exact Nat.le_of_add_le_add_right (hleast (hplace.2 ⟨k, rfl, hk⟩))
  | case3 data hshort =>
    have hnone : ∀ i, ¬NulAt data i := by
      rintro i ⟨-, -, hnext⟩
      match data with
      | [] | [_] => simp at hnext
      | low :: high :: rest => exact hshort low high rest rfl
    rw [unitNul?.eq_2 data hshort]
    constructor
    · intro h
      cases h
    · intro h
      exact absurd h.1 (hnone n)

/-- No terminator is found exactly if no aligned unit is zero. -/
theorem unitNul?_eq_none_iff {data : Bytes} : unitNul? data = none ↔ ∀ i, ¬NulAt data i := by
  constructor
  · intro h i hi
    -- among the places there would be a least one
    classical
    have hleast := Nat.isLeast_find (p := NulAt data) ⟨i, hi⟩
    rw [← unitNul?_eq_some_iff, h] at hleast
    cases hleast
  · intro h
    rw [Option.eq_none_iff_forall_ne_some]
    intro n hn
    exact h n (unitNul?_eq_some_iff.1 hn).1

end EventTrace.Utf16
