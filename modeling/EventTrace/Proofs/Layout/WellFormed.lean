import EventTrace.Layout.Basic
import Mathlib.Data.List.Nodup

/-!
# Well-formed layouts

What the check of a layout stands for, said of the fields and not of the order in which they are
looked at: names differ, every rule suits its type and the fields before it, and only the last field
may take all that is left. The check accepts exactly these lists (`check_eq_ok_iff`), so every layout
is one of them.
-/

namespace EventTrace

/-- Whether the rule of a field is one that its type may have behind some earlier fields: its own
width for a scalar, and otherwise whole elements, a terminator for a string, or a length from an
integer before it. -/
def FieldSpec.SuitsAfter (f : FieldSpec) (earlier : List FieldSpec) : Prop :=
  match f.type.naturalWidth? with
  | some natural => f.rule = .fixed natural
  | none =>
    match f.rule with
    | .fixed width => f.type.elementWidth ∣ width
    | .nullTerminated => f.type.isString = true
    | .lengthField reference => ∃ g ∈ earlier, g.name = reference ∧ g.type.isIntegral = true
    | .remainder | .counted => True

/-- A length is in one of the earlier fields. -/
theorem FieldSpec.SuitsAfter.exists_reference {f : FieldSpec} {earlier : List FieldSpec}
    {reference : String} (h : f.SuitsAfter earlier) (hrule : f.rule = .lengthField reference) :
    ∃ g ∈ earlier, g.name = reference := by
  rw [FieldSpec.SuitsAfter, hrule] at h
  cases hnatural : f.type.naturalWidth? with
  | some natural => simp [hnatural] at h
  | none =>
    simp only [hnatural] at h
    obtain ⟨g, hg, hname, -⟩ := h
    exact ⟨g, hg, hname⟩

namespace Layout

/-- Fields that a layout may have. -/
structure WellFormed (fields : List FieldSpec) : Prop where
  distinct : (fields.map FieldSpec.name).Nodup
  suits : ∀ {before f later}, fields = before ++ f :: later → f.SuitsAfter before
  last : ∀ {before f later}, fields = before ++ f :: later → f.rule = .remainder → later = []

/-! ## Looking up names -/

theorem findField_eq_none_iff {fields : List FieldSpec} {name : String} :
    findField fields name = none ↔ name ∉ fields.map FieldSpec.name := by
  simp [findField]

/-- Among distinct names, a search finds the field of the name. -/
theorem findField_eq_some_iff {fields : List FieldSpec}
    (distinct : (fields.map FieldSpec.name).Nodup) {name : String} {g : FieldSpec} :
    findField fields name = some g ↔ g ∈ fields ∧ g.name = name := by
  induction fields with
  | nil => simp [findField]
  | cons f fields ih =>
    rw [List.map_cons, List.nodup_cons] at distinct
    have hother : g ∈ fields → g.name ≠ f.name := fun hg h =>
      distinct.1 (h ▸ List.mem_map_of_mem hg)
    by_cases hf : f.name = name
    · subst hf
      have : findField (f :: fields) f.name = some f := by simp [findField]
      rw [this, Option.some.injEq, List.mem_cons]
      constructor
      · rintro rfl
        exact ⟨.inl rfl, rfl⟩
      · rintro ⟨rfl | hg, hname⟩
        · rfl
        · exact absurd hname (hother hg)
    · have : findField (f :: fields) name = findField fields name := by simp [findField, hf]
      rw [this, ih distinct.2, List.mem_cons]
      constructor
      · exact fun ⟨hg, hname⟩ => ⟨.inr hg, hname⟩
      · rintro ⟨rfl | hg, hname⟩
        · exact absurd hname hf
        · exact ⟨hg, hname⟩

/-! ## One field -/

/-- A rule passes the check exactly if it suits the type and the fields before. -/
theorem checkRule_eq_ok_iff {earlier : List FieldSpec}
    (distinct : (earlier.map FieldSpec.name).Nodup) {f : FieldSpec} :
    checkRule earlier f = .ok () ↔ f.SuitsAfter earlier := by
  unfold checkRule FieldSpec.SuitsAfter
  cases f.type.naturalWidth? with
  | some natural => cases hr : f.rule <;> simp [checkScalar, hr]
  | none =>
    cases hr : f.rule with
    | fixed width => simp [checkVariable, hr, Nat.dvd_iff_mod_eq_zero]
    | nullTerminated => simp [checkVariable, hr]
    | remainder => simp [checkVariable, hr]
    | counted => simp [checkVariable, hr]
    | lengthField reference =>
      cases hg : findField earlier reference with
      | none =>
        have hnone := findField_eq_none_iff.1 hg
        simp only [checkVariable, hr, hg, reduceCtorEq, false_iff]
        rintro ⟨g, hmem, rfl, -⟩
        exact hnone (List.mem_map_of_mem hmem)
      | some g =>
        have hmem := (findField_eq_some_iff distinct).1 hg
        simp only [checkVariable, hr, hg, ite_eq_left_iff, reduceCtorEq, imp_false, not_not]
        constructor
        · exact fun hint => ⟨g, hmem.1, hmem.2, hint⟩
        · rintro ⟨g', hmem', hname, hint⟩
          have := (findField_eq_some_iff distinct).2 ⟨hmem', hname⟩
          rw [hg, Option.some.injEq] at this
          rw [this]
          exact hint

/-- A field passes the check exactly if it suits, is last if it takes all that is left, and has a
new name. -/
theorem checkField_eq_ok_iff {earlier later : List FieldSpec}
    (distinct : (earlier.map FieldSpec.name).Nodup) {f : FieldSpec} :
    checkField earlier f later = .ok () ↔
      f.SuitsAfter earlier ∧ (f.rule = .remainder → later = []) ∧
        f.name ∉ earlier.map FieldSpec.name := by
  rw [← checkRule_eq_ok_iff distinct, ← findField_eq_none_iff, checkField]
  cases hrule : checkRule earlier f with
  | error e => simp
  | ok u =>
    by_cases hlast : f.rule = .remainder ∧ later ≠ []
    · rw [if_pos hlast]
      simp only [reduceCtorEq, false_iff, true_and]
      exact fun h => hlast.2 (h.1 hlast.1)
    · rw [if_neg hlast]
      have hlast' : f.rule = .remainder → later = [] := fun h =>
        not_not.1 fun hne => hlast ⟨h, hne⟩
      cases hname : findField earlier f.name with
      | none => simpa using hlast'
      | some g => simp

/-! ## All fields -/

/-- The fields behind earlier ones pass if names differ among all of them and each suits those before
it. -/
theorem checkFrom_eq_ok_iff {earlier fields : List FieldSpec}
    (distinct : (earlier.map FieldSpec.name).Nodup) :
    checkFrom earlier fields = .ok () ↔
      ((earlier ++ fields).map FieldSpec.name).Nodup ∧
        ∀ before f later, fields = before ++ f :: later →
          f.SuitsAfter (earlier ++ before) ∧ (f.rule = .remainder → later = []) := by
  induction fields generalizing earlier with
  | nil => simp [checkFrom, distinct]
  | cons f later ih =>
    have hsnoc : f.name ∉ earlier.map FieldSpec.name ↔
        ((earlier ++ [f]).map FieldSpec.name).Nodup := by
      rw [List.map_append, List.map_singleton, List.nodup_append_comm, List.singleton_append,
        List.nodup_cons]
      exact ⟨fun h => ⟨h, distinct⟩, fun h => h.1⟩
    have hstep : checkFrom earlier (f :: later) = .ok () ↔
        checkField earlier f later = .ok () ∧ checkFrom (earlier ++ [f]) later = .ok () := by
      rw [checkFrom]
      cases checkField earlier f later <;> simp
    rw [hstep, checkField_eq_ok_iff distinct, hsnoc]
    constructor
    · rintro ⟨⟨hsuits, hlast, hnames⟩, hlater⟩
      obtain ⟨hall, hsplit⟩ := (ih hnames).1 hlater
      refine ⟨by simpa using hall, fun before g after heq => ?_⟩
      cases before with
      | nil =>
        cases heq
        exact ⟨by simpa using hsuits, hlast⟩
      | cons f' before =>
        cases heq
        simpa using hsplit before g after rfl
    · rintro ⟨hall, hsplit⟩
      rw [List.append_cons, List.map_append] at hall
      have hnames := hall.of_append_left
      obtain ⟨hsuits, hlast⟩ := hsplit [] f later rfl
      refine ⟨⟨by simpa using hsuits, hlast, hnames⟩, (ih hnames).2 ⟨by simpa using hall, ?_⟩⟩
      intro before g after heq
      simpa using hsplit (f :: before) g after (by rw [heq]; rfl)

theorem check_eq_ok_iff {fields : List FieldSpec} : check fields = .ok () ↔ WellFormed fields := by
  rw [check, checkFrom_eq_ok_iff (by simp)]
  exact ⟨fun h => ⟨h.1, fun heq => (h.2 _ _ _ heq).1, fun heq => (h.2 _ _ _ heq).2⟩,
    fun h => ⟨h.distinct, fun _ _ _ heq => ⟨h.suits heq, h.last heq⟩⟩⟩

theorem wellFormed (l : Layout) : WellFormed l.fields := check_eq_ok_iff.1 l.checked

end Layout

end EventTrace
