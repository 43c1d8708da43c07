import EventTrace.Proofs.Builder.Incomplete
import EventTrace.Proofs.Builder.Renewal

/-!
# What packing refuses

A bound builder packs a complete record exactly if it has a value for every field and accepts every
value (`RecordBuilder.Accepts`): the value has bytes, no string among them ends early, and they meet the
length rule of the field. Otherwise it reports the fields that lack a value, or else the first field
whose value it refuses, with the first reason against that value (`RecordBuilder.Refuses`). For an
incomplete record the same holds of the fields before the gap, whatever lengths there are in other fields
(`RecordBuilder.judges_complete`, `RecordBuilder.exists_judges_incomplete`).
-/

namespace EventTrace

/-- The bytes of a value hold no terminator, or it is no string. -/
theorem FieldType.hasNul_eq_false_iff (t : FieldType) {raw : Bytes} :
    RecordBuilder.hasNul t raw = false ↔ (t.isString = true → t.NulFree raw) := by
  constructor
  · intro h hstring
    exact t.nulFree_of_hasNul hstring h
  · intro hfree
    cases t with
    | scalar s | rawBytes => rfl
    | ansiString | unicodeString => exact hasNul_of_nulFree _ (hfree rfl)

/-- The bytes of a value hold a terminator exactly if it is a string of which a character is NUL. -/
theorem FieldType.hasNul_eq_true_iff (t : FieldType) {raw : Bytes} :
    RecordBuilder.hasNul t raw = true ↔ t.isString = true ∧ ¬t.NulFree raw := by
  rw [← not_iff_not, Bool.not_eq_true, t.hasNul_eq_false_iff, not_and_not_right]

namespace RecordBuilder

section

variable [Codecs] (b : RecordBuilder) (mode : PackMode) (spec : FieldSpec)

/-! ## Values that are accepted, and values that are not -/

/-- Whether the bytes of a value meet the length rule of a field. A length in another field counts in a
complete record only. -/
def MeetsRule (raw : Bytes) : Prop :=
  match spec.rule with
  | .fixed width => raw.length ≤ width
  | .lengthField reference => mode = .complete →
      (b.value? reference).bind FieldValue.integer? =
        some (Int.ofNat (raw.length / spec.type.elementWidth))
  | .counted => raw.length ≤ 65535
  | .nullTerminated | .remainder => True

/-- Why the bytes of a value do not meet the length rule of a field. -/
inductive Misfits (raw : Bytes) : Misfit → Prop
  | tooLong {width : Nat} (hrule : spec.rule = .fixed width) (h : width < raw.length) :
      Misfits raw (.tooLong raw.length width)
  | wrongLength {reference : String} (hrule : spec.rule = .lengthField reference)
      (hmode : mode = .complete)
      (h : (b.value? reference).bind FieldValue.integer? ≠
        some (Int.ofNat (raw.length / spec.type.elementWidth))) :
      Misfits raw (.wrongLength reference (raw.length / spec.type.elementWidth)
        ((b.value? reference).bind FieldValue.integer?))
  | tooLongToCount (hrule : spec.rule = .counted) (h : 65535 < raw.length) :
      Misfits raw (.tooLongToCount raw.length)

/-- Whether a field has a value that can be encoded: the value has bytes, no character of a string is
NUL, and the bytes meet the length rule. -/
def Accepts : Prop :=
  ∃ v raw, b.value? spec.name = some v ∧ v.encode b.codec = .ok raw ∧
    (spec.type.isString = true → spec.type.NulFree raw) ∧ b.MeetsRule mode spec raw

/-- Why the value of a field is refused: a text has no bytes in the codec, or else a character of a
string is NUL, or else the bytes do not meet the length rule. -/
inductive Refuses : BuildError → Prop
  | unencodable {text : String} {fault : Codec.Fault}
      (hv : b.value? spec.name = some (.ansiString text))
      (h : b.codec.encode text = .error fault) :
      Refuses (.unencodable spec.name b.codec.name fault.message)
  | nul {v : FieldValue} {raw : Bytes} (hv : b.value? spec.name = some v)
      (hraw : v.encode b.codec = .ok raw) (hstring : spec.type.isString = true)
      (h : ¬spec.type.NulFree raw) :
      Refuses (.misfit spec.name .containsNul)
  | rule {v : FieldValue} {raw : Bytes} {cause : Misfit} (hv : b.value? spec.name = some v)
      (hraw : v.encode b.codec = .ok raw)
      (hfree : spec.type.isString = true → spec.type.NulFree raw)
      (h : b.Misfits mode spec raw cause) :
      Refuses (.misfit spec.name cause)

/-- Whether of some fields the first whose value is refused is refused for a reason. -/
def FirstRefusal (specs : List FieldSpec) (e : BuildError) : Prop :=
  ∃ before spec later, specs = before ++ spec :: later ∧ (∀ f ∈ before, b.Accepts mode f) ∧
    b.Refuses mode spec e

/-- Whether packing in a mode goes by the values of some fields: it succeeds if all are accepted, and
otherwise reports the first that is refused. It never misses a field. -/
structure Judges (specs : List FieldSpec) : Prop where
  ok : (∃ p, b.pack mode = .ok p) ↔ ∀ spec ∈ specs, b.Accepts mode spec
  error : ∀ e, b.pack mode = .error e ↔ b.FirstRefusal mode specs e
  misses : ∀ key names, b.pack mode ≠ .error (.incomplete key names)

variable {b mode spec} {v : FieldValue} {raw : Bytes} {layout : Layout} {e : BuildError}
  {specs later : List FieldSpec}

/-! ## One field -/

omit [Codecs] in
/-- A rule takes exactly the bytes that meet it. -/
theorem applyRule_isOk_iff :
    (∃ data, b.applyRule mode spec raw = .ok data) ↔ b.MeetsRule mode spec raw := by
  rw [applyRule, MeetsRule]
  cases spec.rule with
  | fixed width => by_cases hle : raw.length ≤ width <;> simp [hle]
  | nullTerminated | remainder => simp
  | lengthField reference =>
    by_cases hheld : (b.value? reference).bind FieldValue.integer? =
        some (Int.ofNat (raw.length / spec.type.elementWidth))
    · simp [hheld]
    · cases mode <;> simp_all
  | counted =>
    have hle : raw.length < wordCount 16 ↔ raw.length ≤ 65535 := Nat.lt_succ_iff
    by_cases hlt : raw.length < wordCount 16 <;> simp [hlt, ← hle]

omit [Codecs] in
/-- A rule refuses bytes for exactly the cause that describes them. -/
theorem applyRule_eq_error_iff {cause : Misfit} :
    b.applyRule mode spec raw = .error cause ↔ b.Misfits mode spec raw cause := by
  have hcountable : raw.length < wordCount 16 ↔ raw.length ≤ 65535 := Nat.lt_succ_iff
  constructor
  · intro h
    rw [applyRule] at h
    split at h
    · rename_i width hrule
      split at h
      · cases h
      · rename_i hle
        cases h
        exact .tooLong hrule (Nat.lt_of_not_le hle)
    · cases h
    · rename_i reference hrule
      simp only at h
      split at h
      · cases h
      · rename_i hheld
        cases h
        obtain ⟨hmode, hheld⟩ := not_or.1 hheld
        refine .wrongLength hrule ?_ hheld
        cases mode with
        | complete => rfl
        | incomplete => exact absurd rfl hmode
    · cases h
    · rename_i hrule
      split at h
      · cases h
      · rename_i hlt
        cases h
        exact .tooLongToCount hrule (Nat.lt_of_not_le (mt hcountable.2 hlt))
  · intro h
    cases h with
    | tooLong hrule hlt => simp only [applyRule, hrule, if_neg (Nat.not_le.2 hlt)]
    | wrongLength hrule hmode hheld =>
      subst hmode
      simp only [applyRule, hrule]
      rw [if_neg]
      rintro (hmode | hheld')
      · cases hmode
      · exact hheld hheld'
    | tooLongToCount hrule hlt =>
      have hle : ¬raw.length < wordCount 16 := mt hcountable.1 (Nat.not_le.2 hlt)
      simp only [applyRule, hrule, if_neg hle]

theorem encodeValue_eq_ok_iff {codec : Codec} {name : String} :
    encodeValue codec name v = .ok raw ↔ v.encode codec = .ok raw := by
  rw [encodeValue]
  cases v.encode codec <;> simp

/-- The bytes of a value are missing only for a text that its codec does not represent. -/
theorem encodeValue_eq_error_iff {codec : Codec} {name : String} :
    encodeValue codec name v = .error e ↔ ∃ text fault, v = .ansiString text ∧
      codec.encode text = .error fault ∧ e = .unencodable name codec.name fault.message := by
  rw [encodeValue]
  cases v with
  | ansiString text =>
    rw [FieldValue.encode]
    cases h : codec.encode text with
    | ok raw => simp [h]
    | error fault =>
      constructor
      · rintro ⟨⟩
        exact ⟨text, fault, rfl, h, rfl⟩
      · rintro ⟨text', fault', htext, hfault, rfl⟩
        cases htext
        rw [h] at hfault
        cases hfault
        rfl
  | scalar s | unicodeString text | bytes data => simp [FieldValue.encode]

/-- A field is encoded if its value is accepted. -/
theorem isOk_encodeField_iff (hv : b.value? spec.name = some v) :
    (∃ data, b.encodeField mode spec v = .ok data) ↔ b.Accepts mode spec := by
  simp only [encodeField_eq_ok_iff]
  constructor
  · rintro ⟨data, raw, hraw, hfree, hfits⟩
    exact ⟨v, raw, hv, hraw, spec.type.hasNul_eq_false_iff.1 hfree,
      applyRule_isOk_iff.1 ⟨data, hfits⟩⟩
  · rintro ⟨v', raw, hv', hraw, hfree, hmeets⟩
    obtain rfl : v = v' := Option.some.inj (hv.symm.trans hv')
    obtain ⟨data, hfits⟩ := applyRule_isOk_iff.2 hmeets
    exact ⟨data, raw, hraw, spec.type.hasNul_eq_false_iff.2 hfree, hfits⟩

/-- A field is not encoded for the first reason against its value. -/
theorem encodeField_eq_error_iff (hv : b.value? spec.name = some v) :
    b.encodeField mode spec v = .error e ↔ b.Refuses mode spec e := by
  constructor
  · intro h
    rw [encodeField] at h
    split at h
    · rename_i e' hraw
      cases h
      obtain ⟨text, fault, rfl, hfault, rfl⟩ := encodeValue_eq_error_iff.1 hraw
      exact .unencodable hv hfault
    · rename_i raw hraw
      have hraw := encodeValue_eq_ok_iff.1 hraw
      split at h
      · rename_i hnul
        cases h
        obtain ⟨hstring, hnul⟩ := spec.type.hasNul_eq_true_iff.1 hnul
        exact .nul hv hraw hstring hnul
      · rename_i hnul
        split at h
        · rename_i cause hmisfit
          cases h
          have hfree := spec.type.hasNul_eq_false_iff.1 (Bool.eq_false_iff.2 hnul)
          exact .rule hv hraw hfree (applyRule_eq_error_iff.1 hmisfit)
        · cases h
  · intro h
    cases h with
    | unencodable hv' hfault =>
      obtain rfl := Option.some.inj (hv.symm.trans hv')
      rw [encodeField, encodeValue_eq_error_iff.2 ⟨_, _, rfl, hfault, rfl⟩]
    | nul hv' hraw hstring hnul =>
      obtain rfl := Option.some.inj (hv.symm.trans hv')
      rw [encodeField, encodeValue_eq_ok_iff.2 hraw]
      simp only [if_pos (spec.type.hasNul_eq_true_iff.2 ⟨hstring, hnul⟩)]
    | rule hv' hraw hfree hmisfit =>
      obtain rfl := Option.some.inj (hv.symm.trans hv')
      have hnul := Bool.eq_false_iff.1 (spec.type.hasNul_eq_false_iff.2 hfree)
      rw [encodeField, encodeValue_eq_ok_iff.2 hraw]
      simp only [if_neg hnul, applyRule_eq_error_iff.2 hmisfit]

/-- A refused value is never reported as missing. -/
theorem Refuses.ne_incomplete (h : b.Refuses mode spec e) (key : LayoutKey) (names : List String) :
    e ≠ .incomplete key names := by
  rintro rfl
  cases h

/-! ## Fields in order -/

/-- The first refusal is that of the first field, or, where it is accepted, one behind it. -/
theorem firstRefusal_cons_iff :
    b.FirstRefusal mode (spec :: later) e ↔
      b.Refuses mode spec e ∨ b.Accepts mode spec ∧ b.FirstRefusal mode later e := by
  constructor
  · rintro ⟨before, first, rest, hsplit, hbefore, hrefuses⟩
    cases before with
    | nil =>
      cases hsplit
      exact .inl hrefuses
    | cons head before =>
      cases hsplit
      obtain ⟨hhead, hbefore⟩ := List.forall_mem_cons.1 hbefore
      exact .inr ⟨hhead, before, first, rest, rfl, hbefore, hrefuses⟩
  · rintro (hrefuses | ⟨hhead, before, first, rest, rfl, hbefore, hrefuses⟩)
    · exact ⟨[], spec, later, rfl, by simp, hrefuses⟩
    · exact ⟨spec :: before, first, rest, rfl, List.forall_mem_cons.2 ⟨hhead, hbefore⟩, hrefuses⟩

/-- Fields that all have a value are encoded if every value is accepted. -/
theorem isOk_encodeFields_iff (hsupplied : ∀ spec ∈ specs, (b.value? spec.name).isSome) :
    (∃ data, b.encodeFields mode specs = .ok data) ↔ ∀ spec ∈ specs, b.Accepts mode spec := by
  let values (name : String) : FieldValue := (b.value? name).getD (.bytes [])
  have hvalues : ∀ spec ∈ specs, b.value? spec.name = some (values spec.name) := by
    intro spec hspec
    obtain ⟨v, hv⟩ := Option.isSome_iff_exists.1 (hsupplied spec hspec)
    simp [values, hv]
  rw [encodeFields_isOk_iff hvalues]
  exact forall₂_congr fun spec hspec => isOk_encodeField_iff (hvalues spec hspec)

/-- Fields that all have a value are not encoded for the first value that is refused. -/
theorem encodeFields_eq_error_iff (hsupplied : ∀ spec ∈ specs, (b.value? spec.name).isSome) :
    b.encodeFields mode specs = .error e ↔ b.FirstRefusal mode specs e := by
  induction specs with
  | nil => simp [encodeFields, FirstRefusal]
  | cons spec later ih =>
    obtain ⟨hspec, hlater⟩ := List.forall_mem_cons.1 hsupplied
    obtain ⟨v, hv⟩ := Option.isSome_iff_exists.1 hspec
    rw [firstRefusal_cons_iff, ← ih hlater, ← encodeField_eq_error_iff hv,
      ← isOk_encodeField_iff hv]
    simp only [encodeFields, hv]
    cases b.encodeField mode spec v with
    | error e' => simp
    | ok head => cases b.encodeFields mode later <;> simp [Except.map]

/-! ## Fields that are missing -/

section Missing

variable (htarget : b.target = some layout)

include htarget

omit [Codecs] in
theorem missing_sublist : b.missing.Sublist (layout.fields.map FieldSpec.name) := by
  simp only [missing, htarget]
  exact List.filter_sublist.map _

omit [Codecs] in
/-- The fields reported as missing are those of the layout without a value. -/
theorem mem_missing_iff {name : String} :
    name ∈ b.missing ↔ name ∈ layout.fields.map FieldSpec.name ∧ b.value? name = none := by
  simp only [missing, htarget, List.mem_map, List.mem_filter, Option.isNone_iff_eq_none]
  constructor
  · rintro ⟨spec, ⟨hspec, hnone⟩, rfl⟩
    exact ⟨⟨spec, hspec, rfl⟩, hnone⟩
  · rintro ⟨⟨spec, hspec, rfl⟩, hnone⟩
    exact ⟨spec, ⟨hspec, hnone⟩, rfl⟩

end Missing

/-! ## Packing -/

/-- A complete record is never packed without its missing fields, whatever else is wrong. -/
theorem pack_of_missing (hopen : b.finalized = false) (hmissing : b.missing ≠ []) :
    b.pack .complete = .error (.incomplete b.key b.missing) := by
  simp [pack, hopen, hmissing]

/-- A builder that packs what its fields are encoded to goes by their values. -/
theorem judges_of_pack_eq_map {pack : Bytes → PackedRecord}
    (hsupplied : ∀ spec ∈ specs, (b.value? spec.name).isSome)
    (h : b.pack mode = (b.encodeFields mode specs).map pack) : b.Judges mode specs := by
  have herror : ∀ e, b.pack mode = .error e ↔ b.FirstRefusal mode specs e := by
    intro e
    rw [← encodeFields_eq_error_iff hsupplied, h]
    cases b.encodeFields mode specs <;> simp [Except.map]
  refine ⟨?_, herror, fun key names hmiss => ?_⟩
  · rw [← isOk_encodeFields_iff hsupplied, h]
    cases b.encodeFields mode specs <;> simp [Except.map]
  · obtain ⟨before, spec, later, -, -, hrefuses⟩ := (herror _).1 hmiss
    exact hrefuses.ne_incomplete key names rfl

/-- A complete record that misses nothing goes by all fields. -/
theorem judges_complete (hopen : b.finalized = false) (htarget : b.target = some layout)
    (hmissing : b.missing = []) : b.Judges .complete layout.fields :=
  judges_of_pack_eq_map ((missing_eq_nil_iff htarget).1 hmissing)
    (pack_eq_map hopen (fun _ => hmissing) (layout_of_target htarget))

/-- Nothing but missing fields is reported as missing fields. -/
theorem pack_eq_incomplete_iff (hopen : b.finalized = false) (htarget : b.target = some layout)
    {key : LayoutKey} {names : List String} :
    b.pack .complete = .error (.incomplete key names) ↔
      b.missing ≠ [] ∧ key = b.key ∧ names = b.missing := by
  constructor
  · intro h
    by_cases hmissing : b.missing = []
    · exact absurd h ((judges_complete hopen htarget hmissing).misses key names)
    · rw [pack_of_missing hopen hmissing] at h
      cases h
      exact ⟨hmissing, rfl, rfl⟩
  · rintro ⟨hmissing, rfl, rfl⟩
    exact pack_of_missing hopen hmissing

/-- An incomplete record goes by the fields before the gap alone. -/
theorem exists_judges_incomplete (hopen : b.finalized = false) (htarget : b.target = some layout) :
    ∃ before rest, layout.fields = before ++ rest ∧ b.StopsAfter before rest ∧
      b.Judges .incomplete before := by
  obtain ⟨before, rest, hfields, hstops⟩ := exists_stopsAfter b layout.fields
  have hpack : b.pack .incomplete = _ := pack_eq_map hopen (by simp) (layout_of_target htarget)
  rw [hfields, encodeFields_append hstops] at hpack
  exact ⟨before, rest, hfields, hstops, judges_of_pack_eq_map hstops.supplied hpack⟩

end

end RecordBuilder

end EventTrace
