import EventTrace.Proofs.Layout.Index

/-!
# Faults of layouts

A list of fields that is no layout has a first field that breaks a rule, and this is the one that is
reported. A field may break several rules at once; what is reported is then that its length rule does
not suit it, or else that it takes all that is left but is not the last, or else that its name was taken
before (`FieldSpec.Fault`). So fields are a layout or are refused for a reason that can be told from the
fields alone (`Layout.ofFields_iff_wellFormed`).
-/

namespace EventTrace

/-- The field that an error is about. -/
def LayoutError.field? : LayoutError → Option String
  | .duplicateField name | .unknownLengthField name _ | .lengthFieldNotIntegral name _ _
  | .invalidWidth name _ _ | .unsupportedRule name _ _ | .remainderNotLast name
  | .missingRule name _ => some name
  | .notFound _ | .alreadyRegistered _ => none

namespace FieldSpec

/-- Why the rule of a field does not suit it behind some earlier fields. -/
inductive Unsuited (f : FieldSpec) (earlier : List FieldSpec) : LayoutError → Prop
  /-- A scalar has a width that is not its own. -/
  | scalarWidth {natural width : Nat} (htype : f.type.naturalWidth? = some natural)
      (hrule : f.rule = .fixed width) (hwidth : width ≠ natural) :
      Unsuited f earlier (.invalidWidth f.name f.type width)
  /-- A scalar has a rule without a width. -/
  | scalarRule {natural : Nat} (htype : f.type.naturalWidth? = some natural)
      (hrule : ∀ width, f.rule ≠ .fixed width) :
      Unsuited f earlier (.unsupportedRule f.name f.type f.rule)
  /-- A width is not that of whole elements. -/
  | width {width : Nat} (htype : f.type.naturalWidth? = none) (hrule : f.rule = .fixed width)
      (hwidth : ¬f.type.elementWidth ∣ width) :
      Unsuited f earlier (.invalidWidth f.name f.type width)
  /-- A terminator stands behind something that is no string. -/
  | terminator (htype : f.type.naturalWidth? = none) (hrule : f.rule = .nullTerminated)
      (hstring : f.type.isString = false) :
      Unsuited f earlier (.unsupportedRule f.name f.type f.rule)
  /-- A length is in none of the earlier fields. -/
  | unknown {reference : String} (htype : f.type.naturalWidth? = none)
      (hrule : f.rule = .lengthField reference) (hunknown : ∀ g ∈ earlier, g.name ≠ reference) :
      Unsuited f earlier (.unknownLengthField f.name reference)
  /-- A length is in an earlier field that is no integer. -/
  | notIntegral {g : FieldSpec} (htype : f.type.naturalWidth? = none) (hg : g ∈ earlier)
      (hrule : f.rule = .lengthField g.name) (hint : g.type.isIntegral = false) :
      Unsuited f earlier (.lengthFieldNotIntegral f.name g.name g.type)

/-- Whether a field breaks no rule between earlier and later ones. -/
structure Sound (f : FieldSpec) (earlier later : List FieldSpec) : Prop where
  suits : f.SuitsAfter earlier
  last : f.rule = .remainder → later = []
  fresh : f.name ∉ earlier.map FieldSpec.name

/-- The first fault of a field between earlier and later ones: one of its rule, then one of its place,
then one of its name. -/
inductive Fault (f : FieldSpec) (earlier later : List FieldSpec) : LayoutError → Prop
  | rule {e : LayoutError} (h : f.Unsuited earlier e) : Fault f earlier later e
  | place (hsuits : f.SuitsAfter earlier) (hrule : f.rule = .remainder) (hlater : later ≠ []) :
      Fault f earlier later (.remainderNotLast f.name)
  | name (hsuits : f.SuitsAfter earlier) (hlast : f.rule = .remainder → later = [])
      (hname : f.name ∈ earlier.map FieldSpec.name) :
      Fault f earlier later (.duplicateField f.name)

/-- Every fault is reported with the name of the field. -/
theorem Fault.field?_eq {f : FieldSpec} {earlier later : List FieldSpec} {e : LayoutError}
    (h : f.Fault earlier later e) : e.field? = some f.name := by
  cases h with
  | rule h => cases h <;> rfl
  | place => rfl
  | name => rfl

end FieldSpec

namespace Layout

variable {earlier later fields : List FieldSpec} {f : FieldSpec} {e : LayoutError}

/-! ## One field -/

/-- A scalar is refused exactly for a rule that is not its own width. -/
theorem checkScalar_eq_error_iff {natural : Nat} (htype : f.type.naturalWidth? = some natural) :
    checkScalar f natural = .error e ↔ f.Unsuited earlier e := by
  constructor
  · intro h
    rw [checkScalar] at h
    split at h
    · rename_i width hrule
      split at h
      · cases h
      · rename_i hwidth
        cases h
        exact .scalarWidth htype hrule hwidth
    · rename_i hrule
      cases h
      exact .scalarRule htype hrule
  · intro h
    cases h with
    | scalarWidth htype' hrule hwidth =>
      obtain rfl := Option.some.inj (htype'.symm.trans htype)
      simp only [checkScalar, hrule, if_neg hwidth]
    | scalarRule htype' hrule =>
      rw [checkScalar]
      split
      · rename_i width hfixed
        exact absurd hfixed (hrule width)
      · rfl
    | width htype' | terminator htype' | unknown htype' | notIntegral htype' =>
      rw [htype] at htype'
      cases htype'

/-- A field without a width of its own is refused exactly for the fault of its rule. -/
theorem checkVariable_eq_error_iff (distinct : (earlier.map FieldSpec.name).Nodup)
    (htype : f.type.naturalWidth? = none) :
    checkVariable earlier f = .error e ↔ f.Unsuited earlier e := by
  constructor
  · intro h
    rw [checkVariable] at h
    split at h
    · rename_i width hrule
      split at h
      · cases h
      · rename_i hwidth
        cases h
        exact .width htype hrule fun hdvd => hwidth (Nat.mod_eq_zero_of_dvd hdvd)
    · rename_i hrule
      split at h
      · cases h
      · rename_i hstring
        cases h
        exact .terminator htype hrule (Bool.eq_false_iff.2 hstring)
    · rename_i reference hrule
      split at h
      · rename_i hnone
        cases h
        refine .unknown htype hrule fun g hg hname => ?_
        exact findField_eq_none_iff.1 hnone (hname ▸ List.mem_map_of_mem hg)
      · rename_i g hsome
        obtain ⟨hg, rfl⟩ := (findField_eq_some_iff distinct).1 hsome
        split at h
        · cases h
        · rename_i hint
          cases h
          exact .notIntegral htype hg hrule (Bool.eq_false_iff.2 hint)
    · cases h
    · cases h
  · intro h
    cases h with
    | scalarWidth htype' | scalarRule htype' =>
      rw [htype] at htype'
      cases htype'
    | width _ hrule hwidth =>
      have hmod := mt Nat.dvd_of_mod_eq_zero hwidth
      simp only [checkVariable, hrule, if_neg hmod]
    | terminator _ hrule hstring => simp [checkVariable, hrule, hstring]
    | unknown _ hrule hunknown =>
      have hnone : findField earlier _ = none := findField_eq_none_iff.2 fun hmem => by
        obtain ⟨g, hg, hname⟩ := List.mem_map.1 hmem
        exact hunknown g hg hname
      simp only [checkVariable, hrule, hnone]
    | notIntegral _ hg hrule hint =>
      have hsome := (findField_eq_some_iff distinct).2 ⟨hg, rfl⟩
      simp [checkVariable, hrule, hsome, hint]

/-- A rule is refused exactly for the fault that describes it. -/
theorem checkRule_eq_error_iff (distinct : (earlier.map FieldSpec.name).Nodup) :
    checkRule earlier f = .error e ↔ f.Unsuited earlier e := by
  rw [checkRule]
  cases htype : f.type.naturalWidth? with
  | some natural => exact checkScalar_eq_error_iff htype
  | none => exact checkVariable_eq_error_iff distinct htype

/-- A field passes if it breaks no rule. -/
theorem checkField_eq_ok_iff_sound (distinct : (earlier.map FieldSpec.name).Nodup) :
    checkField earlier f later = .ok () ↔ f.Sound earlier later := by
  rw [checkField_eq_ok_iff distinct]
  exact ⟨fun h => ⟨h.1, h.2.1, h.2.2⟩, fun h => ⟨h.suits, h.last, h.fresh⟩⟩

/-- Of the faults of a field the first is reported. -/
theorem checkField_eq_error_iff (distinct : (earlier.map FieldSpec.name).Nodup) :
    checkField earlier f later = .error e ↔ f.Fault earlier later e := by
  constructor
  · intro h
    rw [checkField] at h
    split at h
    · rename_i e' hrule
      cases h
      exact .rule ((checkRule_eq_error_iff distinct).1 hrule)
    · rename_i hrule
      have hsuits := (checkRule_eq_ok_iff distinct).1 hrule
      split at h
      · rename_i hplace
        cases h
        exact .place hsuits hplace.1 hplace.2
      · rename_i hplace
        split at h
        · rename_i hname
          cases h
          refine .name hsuits (fun hlast => not_not.1 fun hne => hplace ⟨hlast, hne⟩) ?_
          by_contra hfresh
          rw [findField_eq_none_iff.2 hfresh] at hname
          cases hname
        · cases h
  · intro h
    cases h with
    | rule h => simp only [checkField, (checkRule_eq_error_iff distinct).2 h]
    | place hsuits hrule hlater =>
      simp only [checkField, (checkRule_eq_ok_iff distinct).2 hsuits]
      rw [if_pos ⟨hrule, hlater⟩]
    | name hsuits hlast hname =>
      have hplace : ¬(f.rule = .remainder ∧ later ≠ []) := fun h => h.2 (hlast h.1)
      have hfound : (findField earlier f.name).isSome = true := by
        rw [← Option.ne_none_iff_isSome]
        exact fun hnone => findField_eq_none_iff.1 hnone hname
      simp only [checkField, (checkRule_eq_ok_iff distinct).2 hsuits]
      rw [if_neg hplace, if_pos hfound]

/-! ## All fields -/

/-- Whether the first field that breaks a rule, behind some earlier fields, is reported by an error.
The fields before it break none. -/
def FirstFault (earlier fields : List FieldSpec) (e : LayoutError) : Prop :=
  ∃ before f later, fields = before ++ f :: later ∧ f.Fault (earlier ++ before) later e ∧
    ∀ front g back, before = front ++ g :: back → g.Sound (earlier ++ front) (back ++ f :: later)

/-- The first field breaks a rule, or it does not and leaves it to those behind it. -/
theorem firstFault_cons_iff :
    FirstFault earlier (f :: later) e ↔
      f.Fault earlier later e ∨ f.Sound earlier later ∧ FirstFault (earlier ++ [f]) later e := by
  constructor
  · rintro ⟨before, g, back, heq, hfault, hsound⟩
    cases before with
    | nil =>
      cases heq
      exact .inl (by simpa using hfault)
    | cons f' front =>
      cases heq
      refine .inr ⟨by simpa using hsound [] f front rfl, front, g, back, rfl, by simpa using hfault, ?_⟩
      intro front' g' back' heq
      simpa using hsound (f :: front') g' back' (by rw [heq]; rfl)
  · rintro (hfault | ⟨hsound, before, g, back, rfl, hfault, hbefore⟩)
    · exact ⟨[], f, later, rfl, by simpa using hfault, fun _ _ _ heq => by simp at heq⟩
    · refine ⟨f :: before, g, back, rfl, by simpa using hfault, ?_⟩
      intro front g' back' heq
      cases front with
      | nil =>
        cases heq
        simpa using hsound
      | cons f' front =>
        cases heq
        simpa using hbefore front g' back' rfl

/-- Of the fields that break a rule the first is reported. -/
theorem checkFrom_eq_error_iff (distinct : (earlier.map FieldSpec.name).Nodup) :
    checkFrom earlier fields = .error e ↔ FirstFault earlier fields e := by
  induction fields generalizing earlier with
  | nil =>
    rw [checkFrom]
    constructor
    · intro h
      cases h
    · rintro ⟨before, f, later, heq, -⟩
      simp at heq
  | cons f later ih =>
    rw [firstFault_cons_iff, ← checkField_eq_error_iff distinct,
      ← checkField_eq_ok_iff_sound distinct, checkFrom]
    cases hcheck : checkField earlier f later with
    | error e' => simp
    | ok u =>
      have hsound := (checkField_eq_ok_iff_sound distinct).1 hcheck
      have hnames : ((earlier ++ [f]).map FieldSpec.name).Nodup := by
        rw [List.map_append, List.map_singleton, List.nodup_append_comm, List.singleton_append,
          List.nodup_cons]
        exact ⟨hsound.fresh, distinct⟩
      simpa using ih hnames

/-! ## Layouts -/

/-- Fields make a layout exactly if they are well-formed. -/
theorem ofFields_eq_ok_iff {key : LayoutKey} :
    (∃ l, ofFields key fields = .ok l) ↔ WellFormed fields := by
  rw [← check_eq_ok_iff, ofFields]
  constructor
  · rintro ⟨l, h⟩
    split at h
    · cases h
    · assumption
  · intro h
    split
    · rename_i e herror
      rw [h] at herror
      cases herror
    · exact ⟨_, rfl⟩

/-- Fields are refused exactly for their first fault. -/
theorem ofFields_eq_error_iff {key : LayoutKey} :
    ofFields key fields = .error e ↔ FirstFault [] fields e := by
  rw [← checkFrom_eq_error_iff (by simp), ← check, ofFields]
  split
  · rename_i e' herror
    rw [herror, Except.error.injEq, Except.error.injEq]
  · rename_i hok
    simp [hok]

theorem key_of_ofFields {key : LayoutKey} {l : Layout} (h : ofFields key fields = .ok l) :
    l.key = key := by
  rw [ofFields] at h
  split at h
  · cases h
  · cases h
    rfl

/-- A name stands in the one place where it is declared. -/
theorem position?_eq_some_iff (l : Layout) {name : String} {i : Nat} :
    l.position? name = some i ↔ ∃ f, l.fields[i]? = some f ∧ f.name = name := by
  rw [position?, List.findIdx?_eq_some_iff_getElem]
  constructor
  · rintro ⟨hi, hname, -⟩
    exact ⟨l.fields[i], List.getElem?_eq_getElem hi, by simpa using hname⟩
  · rintro ⟨f, hf, hname⟩
    obtain ⟨hi, rfl⟩ := List.getElem?_eq_some_iff.1 hf
    refine ⟨hi, by simpa using hname, fun j hj hsame => ?_⟩
    -- the names differ, so none of those before it is the same
    have hnames : (l.fields.map FieldSpec.name)[j]? = (l.fields.map FieldSpec.name)[i]? := by
      have hlt : j < l.fields.length := Nat.lt_trans hj hi
      simp only [List.getElem?_map, List.getElem?_eq_getElem hi, List.getElem?_eq_getElem hlt,
        Option.map_some, hname]
      simpa using hsame
    have hlt : j < (l.fields.map FieldSpec.name).length := by
      rw [List.length_map]
      exact Nat.lt_trans hj hi
    exact Nat.ne_of_lt hj ((List.getElem?_inj hlt l.wellFormed.distinct).1 hnames)

theorem position?_eq_none_iff (l : Layout) {name : String} :
    l.position? name = none ↔ name ∉ l.fields.map FieldSpec.name := by
  simp [position?]

/-- Fields are a layout exactly if they are well-formed. The layout has them as they are, each in its
place. Otherwise the error is that of the first field that breaks a rule. With an index that is filled
on the way, the outcome is the same and so are all look-ups. -/
theorem ofFields_iff_wellFormed (key : LayoutKey) (fields : List FieldSpec) :
    ((∃ l, ofFields key fields = .ok l) ↔ WellFormed fields) ∧
    (∀ l, ofFields key fields = .ok l → l.key = key ∧ l.fields = fields ∧
      ∀ name, (∀ i, l.position? name = some i ↔ ∃ f, fields[i]? = some f ∧ f.name = name) ∧
        (l.position? name = none ↔ name ∉ fields.map FieldSpec.name)) ∧
    (∀ e, ofFields key fields = .error e ↔
      ∃ before f later, fields = before ++ f :: later ∧
        (f.Fault before later e ∧ e.field? = some f.name) ∧
        ∀ front g back, before = front ++ g :: back → g.Sound front (back ++ f :: later)) ∧
    (∀ e, ofFields key fields = .error e → IndexedLayout.ofFields key fields = some (.error e)) ∧
    ∀ l, ofFields key fields = .ok l → ∃ s, IndexedLayout.ofFields key fields = some (.ok s) ∧
      ∀ name, s.position? name = l.position? name ∧ s.field? name = some (l.field? name) := by
  obtain ⟨herror, hok⟩ := IndexedLayout.ofFields_refines key fields
  refine ⟨ofFields_eq_ok_iff, ?_, ?_, herror, ?_⟩
  · intro l h
    obtain rfl := fields_of_ofFields h
    exact ⟨key_of_ofFields h, rfl, fun name => ⟨fun i => l.position?_eq_some_iff,
      l.position?_eq_none_iff⟩⟩
  · intro e
    rw [ofFields_eq_error_iff, FirstFault]
    simp only [List.nil_append]
    refine exists_congr fun before => exists_congr fun f => exists_congr fun later => ?_
    refine and_congr_right fun _ => and_congr_left fun _ => ?_
    exact ⟨fun h => ⟨h, h.field?_eq⟩, fun h => h.1⟩
  · intro l h
    obtain ⟨s, hs, hrepresents⟩ := hok l h
    exact ⟨s, hs, fun name => ⟨hrepresents.position?_eq name, hrepresents.field?_eq name⟩⟩

end Layout

end EventTrace
