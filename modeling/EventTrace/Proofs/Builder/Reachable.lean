import EventTrace.Builder.Call
import EventTrace.Proofs.Layout.WellFormed

/-!
# Reachable builders

A builder starts bound to a layout or without one, and goes on by calls and by changes of its codec.
Whatever was added to a bound builder has the type that the layout declares (`Reachable.typed`).
-/

namespace EventTrace.RecordBuilder

variable [Codecs]

/-- The builders that there are. -/
inductive Reachable : RecordBuilder → Prop
  | new (providerId : Guid) (eventId : UInt16) (version : UInt8) :
    Reachable (.new providerId eventId version)
  | forLayout (providerId : Guid) (layout : Layout) : Reachable (.forLayout providerId layout)
  | withCodec {b : RecordBuilder} (codec : Codec) : Reachable b → Reachable (b.withCodec codec)
  | call {b : RecordBuilder} (c : BuilderCall) : Reachable b → Reachable (b.call c).1

theorem Reachable.run {b : RecordBuilder} (h : b.Reachable) (calls : List BuilderCall) :
    (b.run calls).1.Reachable := by
  induction calls generalizing b with
  | nil => exact h
  | cons c calls ih => exact ih (h.call c)

/-- Whether all that was added to a bound builder has the types that the layout declares. -/
def Typed (b : RecordBuilder) : Prop :=
  ∀ layout, b.target = some layout → ∀ a ∈ b.additions, ∃ spec,
    layout.field? a.name = some spec ∧ spec.type = a.value.type

variable {b b' : RecordBuilder}

omit [Codecs] in
/-- An addition that passes the check names a field of the target, with the type of its value. -/
theorem checkTarget_eq_ok {a : Addition} {layout : Layout} (h : b.checkTarget a = .ok ())
    (htarget : b.target = some layout) :
    ∃ spec, layout.field? a.name = some spec ∧ spec.type = a.value.type := by
  rw [checkTarget, htarget] at h
  cases hspec : layout.field? a.name with
  | none => simp [hspec] at h
  | some spec =>
    simp only [hspec] at h
    split at h
    · rename_i htype
      exact ⟨spec, rfl, htype⟩
    · cases h

omit [Codecs] in
/-- What adding a value does when it succeeds. -/
theorem add_eq_ok {a : Addition} (h : b.add a = .ok b') :
    b.finalized = false ∧ b.value? a.name = none ∧ b.checkTarget a = .ok () ∧
      b' = { b with additions := b.additions ++ [a] } := by
  rw [add] at h
  split at h
  · cases h
  · rename_i hopen
    split at h
    · cases h
    · rename_i hvalue
      cases hcheck : b.checkTarget a with
      | error e => simp [hcheck] at h
      | ok u =>
        simp only [hcheck, Except.ok.injEq] at h
        exact ⟨by simpa using hopen, by simpa using hvalue, rfl, h.symm⟩

omit [Codecs] in
theorem value?_append_eq_some {additions : List Addition} {name : String} {v : FieldValue}
    (h : b.value? name = some v) :
    { b with additions := b.additions ++ additions }.value? name = some v := by
  rw [value?, Option.map_eq_some_iff] at h ⊢
  obtain ⟨a, ha, rfl⟩ := h
  exact ⟨a, by rw [List.find?_append, ha]; rfl, rfl⟩

omit [Codecs] in
/-- What was added before stays. -/
theorem value?_of_add {a : Addition} (h : b.add a = .ok b') {name : String} {v : FieldValue}
    (hv : b.value? name = some v) : b'.value? name = some v := by
  obtain ⟨-, -, -, rfl⟩ := add_eq_ok h
  exact value?_append_eq_some hv

omit [Codecs] in
/-- What was added is there. -/
theorem value?_add {a : Addition} (h : b.add a = .ok b') : b'.value? a.name = some a.value := by
  obtain ⟨-, hnone, -, rfl⟩ := add_eq_ok h
  rw [value?, Option.map_eq_none_iff] at hnone
  rw [value?, List.find?_append, hnone, List.find?_cons_of_pos (by simp)]
  rfl

omit [Codecs] in
/-- What setting a stack does when it succeeds. -/
theorem withStack_eq_ok {addresses : List UInt64} (h : b.withStack addresses = .ok b') :
    b' = { b with stack := some addresses } := by
  rw [withStack] at h
  split at h
  · cases h
  · cases h
    rfl

theorem Reachable.add {a : Addition} (hb : b.Reachable) (h : b.add a = .ok b') : b'.Reachable := by
  have hcall : (b.call (.add a)).1 = b' := by simp only [RecordBuilder.call, settle, h]
  rw [← hcall]
  exact hb.call _

theorem Reachable.withStack {addresses : List UInt64} (hb : b.Reachable)
    (h : b.withStack addresses = .ok b') : b'.Reachable := by
  have hcall : (b.call (.withStack addresses)).1 = b' := by simp only [RecordBuilder.call, settle, h]
  rw [← hcall]
  exact hb.call _

omit [Codecs] in
/-- An addition keeps the types of values as the target declares them. -/
theorem Typed.add {a : Addition} (hb : b.Typed) (h : b.add a = .ok b') : b'.Typed := by
  obtain ⟨-, -, hcheck, rfl⟩ := add_eq_ok h
  intro layout htarget a' ha'
  rcases List.mem_append.1 ha' with ha' | ha'
  · exact hb layout htarget a' ha'
  · rw [List.mem_singleton.1 ha']
    exact checkTarget_eq_ok hcheck htarget

/-- A call leaves the values of a bound builder in the types of the layout. -/
theorem Typed.call (hb : b.Typed) (c : BuilderCall) : (b.call c).1.Typed := by
  cases c with
  | add a =>
    rw [RecordBuilder.call]
    cases hadd : b.add a with
    | error e => exact hb
    | ok b' => exact hb.add hadd
  | withStack addresses =>
    rw [RecordBuilder.call, RecordBuilder.withStack]
    by_cases hopen : b.finalized = true
    · rw [if_pos hopen]
      exact hb
    · rw [if_neg hopen]
      exact hb
  | edit change => exact hb
  | pack mode =>
    rw [RecordBuilder.call]
    split
    · intro layout htarget a ha
      cases ha
    · exact hb

/-- The values of a bound builder have the types of the layout. -/
theorem Reachable.typed (h : b.Reachable) : b.Typed := by
  induction h with
  | new providerId eventId version =>
    intro layout htarget
    cases htarget
  | forLayout providerId layout =>
    intro layout' htarget a ha
    cases ha
  | withCodec codec h ih => exact ih
  | call c h ih => exact ih.call c

end EventTrace.RecordBuilder
