import EventTrace.Proofs.Builder.Renewal

/-!
# Builders forget how they were filled

What a bound builder holds after some steps can be told from the steps alone: under each name the first
value that was to be added there and that the layout declares (`RecordBuilder.value?_steps`), and the
addresses that were set last (`RecordBuilder.stack_steps`). The order of the additions and the rules that
they would take in a derived layout do not come into it, and steps that fail leave nothing. So builders of
one layout that were left with the same values, header, codec and addresses pack alike
(`RecordBuilder.pack_steps_eq`).
-/

namespace EventTrace

/-- Whether a layout has a field for an addition. -/
def Layout.declares (layout : Layout) (a : Addition) : Bool :=
  (layout.field? a.name).any fun spec => spec.type = a.value.type

namespace RecordBuilder

/-- What is done with a builder: a call, or a change of its codec. -/
inductive Step where
  | call (c : BuilderCall)
  | recode (codec : Codec)

namespace Step

/-- The value that a step is to add under a name, if a layout declares it. -/
def value? (layout : Layout) (name : String) : Step → Option FieldValue
  | .call (.add a) => if a.name = name ∧ layout.declares a then some a.value else none
  | _ => none

def addresses? : Step → Option (List UInt64)
  | .call (.withStack addresses) => some addresses
  | _ => none

end Step

section

variable [Codecs]

def step (b : RecordBuilder) : Step → RecordBuilder
  | .call c => (b.call c).1
  | .recode codec => b.withCodec codec

def steps (b : RecordBuilder) (ss : List Step) : RecordBuilder := ss.foldl step b

variable {b b' : RecordBuilder} {layout : Layout} {s : Step} {ss ss' : List Step} {name : String}

/-! ## One step -/

/-- What a step can make of a builder. -/
inductive Effect (b : RecordBuilder) : Step → RecordBuilder → Prop
  /-- A call that fails changes nothing. -/
  | failed (c : BuilderCall) : Effect b (.call c) b
  | added (a : Addition) : Effect b (.call (.add a)) { b with additions := b.additions ++ [a] }
  | stacked (addresses : List UInt64) :
    Effect b (.call (.withStack addresses)) { b with stack := some addresses }
  | edited (change : EventHeader → EventHeader) :
    Effect b (.call (.edit change)) (b.withHeader (change b.header))
  | packed (mode : PackMode) : Effect b (.call (.pack mode)) b.packed
  | recoded (codec : Codec) : Effect b (.recode codec) (b.withCodec codec)

/-- A step sets the codec, or has an effect of its call: a value, the header, the stack, the mark of
a packed record, or none. -/
theorem effect_step (b : RecordBuilder) (s : Step) : b.Effect s (b.step s) := by
  cases s with
  | recode codec => exact .recoded codec
  | call c =>
    rw [step]
    cases c with
    | add a =>
      rw [call]
      cases hadd : b.add a with
      | error e => exact .failed _
      | ok next =>
        obtain ⟨-, -, -, rfl⟩ := add_eq_ok hadd
        exact .added a
    | withStack addresses =>
      rw [call]
      cases hgiven : b.withStack addresses with
      | error e => exact .failed _
      | ok next =>
        rw [withStack_eq_ok hgiven]
        exact .stacked addresses
    | edit change => exact .edited change
    | pack mode =>
      rw [call]
      cases b.pack mode with
      | error e => exact .failed _
      | ok p => exact .packed mode

/-- What a step adds to a builder: a value that the layout declares, under a name that has none. -/
def gain (b : RecordBuilder) (layout : Layout) : Step → List Addition
  | .call (.add a) => if b.value? a.name = none ∧ layout.declares a then [a] else []
  | _ => []

omit [Codecs] in
/-- A builder that is bound to a layout has no objection to what the layout declares. -/
theorem checkTarget_eq_ok_iff (htarget : b.target = some layout) {a : Addition} :
    b.checkTarget a = .ok () ↔ layout.declares a = true := by
  simp only [checkTarget, htarget, Layout.declares]
  cases layout.field? a.name with
  | none => simp
  | some spec => by_cases htype : spec.type = a.value.type <;> simp [htype]

omit [Codecs] in
theorem add_eq_ok_iff_of_target (htarget : b.target = some layout) (hopen : b.finalized = false)
    {a : Addition} :
    (∃ next, b.add a = .ok next) ↔ b.value? a.name = none ∧ layout.declares a = true := by
  simp [add_eq_ok_iff, checkTarget_eq_ok_iff htarget, hopen]

/-- What a step makes of a builder that stays open. -/
theorem step_eq (htarget : b.target = some layout) (hopen : (b.step s).finalized = false) :
    ∃ header codec, b.step s = { b with
      header, codec
      additions := b.additions ++ b.gain layout s
      stack := s.addresses?.or b.stack } := by
  cases s with
  | recode codec => exact ⟨b.header, codec, by simp [step, withCodec, gain, Step.addresses?]⟩
  | call c =>
    simp only [step] at hopen ⊢
    cases c with
    | add a =>
      simp only [call, settle] at hopen ⊢
      cases hadd : b.add a with
      | error e =>
        simp only [hadd] at hopen
        have hnone : ¬(b.value? a.name = none ∧ layout.declares a = true) := by
          rw [← add_eq_ok_iff_of_target htarget hopen, hadd]
          simp
        exact ⟨b.header, b.codec, by simp [gain, hnone, Step.addresses?]⟩
      | ok next =>
        obtain ⟨hopen, hnew, hdeclared, rfl⟩ := add_eq_ok hadd
        have hgain : b.gain layout (.call (.add a)) = [a] :=
          if_pos ⟨hnew, (checkTarget_eq_ok_iff htarget).1 hdeclared⟩
        exact ⟨b.header, b.codec, by simp [hgain, Step.addresses?]⟩
    | withStack addresses =>
      simp only [call, settle, withStack] at hopen ⊢
      cases hclosed : b.finalized with
      | true => simp [hclosed] at hopen
      | false => exact ⟨b.header, b.codec, by simp [gain, Step.addresses?]⟩
    | edit change =>
      exact ⟨change b.header, b.codec, by simp [call, withHeader, gain, Step.addresses?]⟩
    | pack mode =>
      simp only [call] at hopen ⊢
      cases hpack : b.pack mode with
      | error e => exact ⟨b.header, b.codec, by simp [gain, Step.addresses?]⟩
      | ok p => simp [hpack, packed] at hopen

/-- A builder that is open after a step was open before. -/
theorem finalized_of_step (hopen : (b.step s).finalized = false) : b.finalized = false := by
  have heffect := b.effect_step s
  generalize b.step s = next at heffect hopen
  cases heffect with
  | failed | added | stacked | edited | recoded => exact hopen
  | packed mode => cases hopen

theorem target_step (htarget : b.target = some layout) (hopen : (b.step s).finalized = false) :
    (b.step s).target = some layout := by
  obtain ⟨header, codec, h⟩ := step_eq htarget hopen
  rw [h]
  exact htarget

/-- A step on a builder that stays open gives a name without a value the one that is to be added there. -/
theorem value?_step (htarget : b.target = some layout) (hopen : (b.step s).finalized = false) :
    (b.step s).value? name = (b.value? name).or (s.value? layout name) := by
  obtain ⟨header, codec, h⟩ := step_eq htarget hopen
  have happend : (b.step s).value? name =
      (b.value? name).or (((b.gain layout s).find? (·.name = name)).map Addition.value) := by
    simp only [h, value?, List.find?_append, Option.map_or]
  rw [happend]
  cases s with
  | recode codec => rfl
  | call c =>
    cases c with
    | withStack addresses | edit change | pack mode => rfl
    | add a =>
      cases hv : b.value? name with
      | some v => rfl
      | none =>
        by_cases hname : a.name = name
        · subst hname
          by_cases hdeclared : layout.declares a = true <;> simp [gain, Step.value?, hv, hdeclared]
        · rw [gain]
          split <;> simp [Step.value?, hname]

theorem stack_step (htarget : b.target = some layout) (hopen : (b.step s).finalized = false) :
    (b.step s).stack = s.addresses?.or b.stack := by
  obtain ⟨header, codec, h⟩ := step_eq htarget hopen
  rw [h]

/-! ## All steps -/

/-- The value that some steps give a name: the first that is to be added under it and that a layout
declares. -/
def valueOf (layout : Layout) (ss : List Step) (name : String) : Option FieldValue :=
  ss.findSome? (Step.value? layout name)

/-- The addresses that some steps set last. -/
def lastAddresses (ss : List Step) : Option (List UInt64) := ss.reverse.findSome? Step.addresses?

omit [Codecs] in
theorem valueOf_cons : valueOf layout (s :: ss) name =
    (s.value? layout name).or (valueOf layout ss name) := by
  rw [valueOf, List.findSome?_cons]
  cases s.value? layout name <;> rfl

omit [Codecs] in
theorem lastAddresses_cons : lastAddresses (s :: ss) = (lastAddresses ss).or s.addresses? := by
  simp only [lastAddresses, List.reverse_cons, List.findSome?_append, List.findSome?_singleton]

omit [Codecs] in
/-- A name without a field has no value. -/
theorem valueOf_eq_none (h : layout.field? name = none) : valueOf layout ss name = none := by
  refine List.findSome?_eq_none_iff.2 fun s _ => ?_
  cases s with
  | recode codec => rfl
  | call c =>
    cases c with
    | withStack addresses | edit change | pack mode => rfl
    | add a =>
      refine if_neg ?_
      rintro ⟨rfl, hdeclared⟩
      simp [Layout.declares, h] at hdeclared

/-- A builder that some steps leave open was open before them. -/
theorem finalized_of_steps (ss : List Step) (hopen : (b.steps ss).finalized = false) :
    b.finalized = false := by
  induction ss generalizing b with
  | nil => exact hopen
  | cons s ss ih => exact finalized_of_step (ih hopen)

/-- Steps that leave a builder open give every name without a value the first one that is to be added there
and that the layout declares. -/
theorem value?_steps (htarget : b.target = some layout) (hopen : (b.steps ss).finalized = false)
    (name : String) : (b.steps ss).value? name = (b.value? name).or (valueOf layout ss name) := by
  induction ss generalizing b with
  | nil => simp [steps, valueOf]
  | cons s ss ih =>
    have hstep : (b.step s).finalized = false := finalized_of_steps ss hopen
    have hlater : (b.steps (s :: ss)).value? name = _ := ih (target_step htarget hstep) hopen
    rw [hlater, value?_step htarget hstep, valueOf_cons, Option.or_assoc]

/-- Steps that leave a builder open give it the addresses that they set last. -/
theorem stack_steps (htarget : b.target = some layout) (hopen : (b.steps ss).finalized = false) :
    (b.steps ss).stack = (lastAddresses ss).or b.stack := by
  induction ss generalizing b with
  | nil => simp [steps, lastAddresses]
  | cons s ss ih =>
    have hstep : (b.step s).finalized = false := finalized_of_steps ss hopen
    have hlater : (b.steps (s :: ss)).stack = _ := ih (target_step htarget hstep) hopen
    rw [hlater, stack_step htarget hstep, lastAddresses_cons, Option.or_assoc]

/-- A target stays the target until the record is packed. -/
theorem target_steps (htarget : b.target = some layout) (hopen : (b.steps ss).finalized = false) :
    (b.steps ss).target = some layout := by
  induction ss generalizing b with
  | nil => exact htarget
  | cons s ss ih =>
    exact ih (target_step htarget (finalized_of_steps ss hopen)) hopen

/-! ## Two runs -/

/-- Packing goes by the layout that a builder is bound to, and by what there is under which name. -/
theorem pack_congr (htarget : b.target = some layout) (htarget' : b'.target = some layout)
    (hopen : b.finalized = b'.finalized) (hvalues : ∀ name, b.value? name = b'.value? name)
    (hheader : b.header = b'.header) (hcodec : b.codec = b'.codec) (hstack : b.stack = b'.stack)
    (mode : PackMode) : b.pack mode = b'.pack mode := by
  have hmissing : b.missing = b'.missing := by simp only [missing, htarget, htarget', hvalues]
  have hassemble : b.assemble mode = b'.assemble mode := by
    simp only [assemble, layout_of_target htarget, layout_of_target htarget',
      encodeFields_congr hcodec hvalues, recordOf, hheader, hstack]
  simp only [pack, key, hopen, hmissing, hheader, hassemble]

/-- While it is open, a builder that is bound to a layout has under each name the first value that was to
be added there and that the layout declares. Two builders of the layout that were left with the same
values, header, codec and last addresses, both of them open or both packed, answer packing alike whatever
the steps were, with the same record or the same error. -/
theorem pack_steps_eq (layout : Layout) (providerId providerId' : Guid) (ss ss' : List Step) :
    let b := (forLayout providerId layout).steps ss
    let b' := (forLayout providerId' layout).steps ss'
    (b.finalized = false → ∀ name, b.value? name = valueOf layout ss name) ∧
    (b.finalized = b'.finalized → (∀ name, b.value? name = b'.value? name) →
      b.header = b'.header → b.codec = b'.codec → lastAddresses ss = lastAddresses ss' →
      ∀ mode, b.pack mode = b'.pack mode) := by
  intro b b'
  refine ⟨fun hopen name => ?_, fun hsame hvalues hheader hcodec haddresses mode => ?_⟩
  · rw [value?_steps rfl hopen]
    rfl
  · cases hopen : b.finalized with
    | true =>
      have hclosed : b'.finalized = true := hsame.symm.trans hopen
      rw [pack, pack, if_pos hopen, if_pos hclosed]
    | false =>
      have hopen' : b'.finalized = false := hsame.symm.trans hopen
      have hstack : b.stack = b'.stack := by
        rw [stack_steps rfl hopen, stack_steps rfl hopen', haddresses]
        rfl
      exact pack_congr (target_steps rfl hopen) (target_steps rfl hopen') hsame hvalues hheader
        hcodec hstack mode

end

/-- A layout of a text and a number. -/
def named : Layout :=
  ⟨⟨1, 0⟩, none, [.natural "Name" .unicodeString, .natural "Code" (.scalar (.word .uint16))], rfl⟩

/-- Steps that add the text first, and fail to pack before there is the number. -/
def textFirst : List Step :=
  [.call (.add (.counted "Name" "ab")), .call (.pack .complete), .call (.withStack [1]),
    .call (.add (.scalar "Code" (.word .uint16 7))), .call (.withStack [2, 3])]

/-- Steps that add the number first, and fail to add what the layout does not declare. -/
def numberFirst : List Step :=
  [.call (.withStack [2, 3]), .call (.add (.bytes "Code" [7])), .call (.add (.unicode "Title" "ab")),
    .call (.add (.ofValue "Code" (.scalar (.word .uint16 7)))), .call (.add (.unicode "Name" "ab"))]

theorem valueOf_textFirst (name : String) :
    valueOf named textFirst name = valueOf named numberFirst name := by
  by_cases hfield : name ∈ named.fields.map FieldSpec.name
  · obtain rfl | rfl : name = "Name" ∨ name = "Code" := by
      simpa [named, FieldSpec.natural] using hfield
    · rfl
    · rfl
  · have hnone : named.field? name = none := Layout.findField_eq_none_iff.2 hfield
    rw [valueOf_eq_none hnone, valueOf_eq_none hnone]

/-- A text before a number and the number before the text give one record. -/
theorem pack_steps_eq_named : ∃ p,
    ((forLayout .nil named).steps textFirst).pack .complete = .ok p ∧
    ((forLayout .nil named).steps numberFirst).pack .complete = .ok p := by
  obtain ⟨htext, heq⟩ := pack_steps_eq named .nil .nil textFirst numberFirst
  obtain ⟨hnumber, -⟩ := pack_steps_eq named .nil .nil numberFirst textFirst
  refine ⟨_, rfl, (heq rfl (fun name => ?_) rfl rfl rfl .complete).symm⟩
  rw [htext rfl, hnumber rfl, valueOf_textFirst]

end RecordBuilder

end EventTrace
