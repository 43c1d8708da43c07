import EventTrace.Proofs.Builder.Reachable
import Mathlib.Data.List.Nodup

/-!
# Additions one after the other

A builder that takes some values one after the other has them all, behind those that it had, and it
takes them exactly if their names are new and differ, and its layout declares each as what it is
(`addAll_eq_ok_iff`).
-/

namespace EventTrace.RecordBuilder

def addAll (b : RecordBuilder) (added : List Addition) : Except BuildError RecordBuilder :=
  added.foldlM add b

/-- The builder with more additions behind those that it has. -/
def extend (b : RecordBuilder) (added : List Addition) : RecordBuilder :=
  { b with additions := b.additions ++ added }

variable {b b' : RecordBuilder} {added : List Addition} {a : Addition}

@[simp] theorem addAll_nil (b : RecordBuilder) : b.addAll [] = .ok b := rfl

theorem addAll_cons (b : RecordBuilder) (a : Addition) (added : List Addition) :
    b.addAll (a :: added) =
      match b.add a with
      | .error e => .error e
      | .ok b' => b'.addAll added := by
  rw [addAll, List.foldlM_cons]
  cases b.add a <;> rfl

@[simp] theorem extend_nil (b : RecordBuilder) : b.extend [] = b := by
  simp [extend]

@[simp] theorem target_extend (b : RecordBuilder) (added : List Addition) :
    (b.extend added).target = b.target := rfl

@[simp] theorem codec_extend (b : RecordBuilder) (added : List Addition) :
    (b.extend added).codec = b.codec := rfl

@[simp] theorem finalized_extend (b : RecordBuilder) (added : List Addition) :
    (b.extend added).finalized = b.finalized := rfl

@[simp] theorem checkTarget_extend (b : RecordBuilder) (added : List Addition) (a : Addition) :
    (b.extend added).checkTarget a = b.checkTarget a := rfl

theorem extend_cons (b : RecordBuilder) (a : Addition) (added : List Addition) :
    b.extend (a :: added) = (b.extend [a]).extend added := by
  simp [extend]

/-! ## What a builder takes -/

theorem value?_eq_none_iff {name : String} :
    b.value? name = none ↔ name ∉ b.additions.map Addition.name := by
  simp [value?]

theorem value?_extend_of_some {name : String} {v : FieldValue} (h : b.value? name = some v)
    (added : List Addition) : (b.extend added).value? name = some v :=
  value?_append_eq_some h

theorem value?_extend_singleton_eq_none_iff {name : String} :
    (b.extend [a]).value? name = none ↔ b.value? name = none ∧ a.name ≠ name := by
  simp only [value?_eq_none_iff, extend, List.map_append, List.map_singleton, List.mem_append,
    List.mem_singleton, not_or, ne_comm (a := a.name)]

/-- A value is added to an open builder that has none of its name, where the layout declares it. -/
theorem add_eq_ok_iff :
    b.add a = .ok b' ↔
      b.finalized = false ∧ b.value? a.name = none ∧ b.checkTarget a = .ok () ∧ b' = b.extend [a] := by
  constructor
  · exact add_eq_ok
  · rintro ⟨hopen, hnew, hdeclared, rfl⟩
    simp [add, hopen, hnew, hdeclared, extend]

/-- What adding values one after the other takes, and what it makes of the builder. -/
theorem addAll_eq_ok_iff (hopen : b.finalized = false) :
    b.addAll added = .ok b' ↔
      (added.map Addition.name).Nodup ∧
        (∀ a ∈ added, b.value? a.name = none ∧ b.checkTarget a = .ok ()) ∧ b' = b.extend added := by
  induction added generalizing b with
  | nil => simp [eq_comm]
  | cons a added ih =>
    have hcons : b.addAll (a :: added) = .ok b' ↔
        b.value? a.name = none ∧ b.checkTarget a = .ok () ∧
          (b.extend [a]).addAll added = .ok b' := by
      rw [addAll_cons]
      constructor
      · intro h
        cases hadd : b.add a with
        | error e => simp [hadd] at h
        | ok next =>
          obtain ⟨-, hnew, hdeclared, rfl⟩ := add_eq_ok_iff.1 hadd
          rw [hadd] at h
          exact ⟨hnew, hdeclared, h⟩
      · rintro ⟨hnew, hdeclared, h⟩
        rw [add_eq_ok_iff.2 ⟨hopen, hnew, hdeclared, rfl⟩]
        exact h
    have hname : a.name ∉ added.map Addition.name ↔ ∀ a' ∈ added, a.name ≠ a'.name := by
      simp [eq_comm]
    rw [hcons, ih (b := b.extend [a]) hopen, List.map_cons, List.nodup_cons, List.forall_mem_cons,
      ← extend_cons, hname]
    simp only [value?_extend_singleton_eq_none_iff, checkTarget_extend]
    constructor
    · rintro ⟨hnew, hdeclared, hdistinct, hall, rfl⟩
      exact ⟨⟨fun a' ha' => (hall a' ha').1.2, hdistinct⟩,
        ⟨⟨hnew, hdeclared⟩, fun a' ha' => ⟨(hall a' ha').1.1, (hall a' ha').2⟩⟩, rfl⟩
    · rintro ⟨⟨hne, hdistinct⟩, ⟨⟨hnew, hdeclared⟩, hall⟩, rfl⟩
      exact ⟨hnew, hdeclared, hdistinct,
        fun a' ha' => ⟨⟨(hall a' ha').1, hne a' ha'⟩, (hall a' ha').2⟩, rfl⟩

/-- Additions lead from a state that calls can reach to another one. -/
theorem Reachable.addAll [Codecs] (hb : b.Reachable) (h : b.addAll added = .ok b') :
    b'.Reachable := by
  induction added generalizing b with
  | nil =>
    cases h
    exact hb
  | cons a added ih =>
    rw [addAll_cons] at h
    cases hadd : b.add a with
    | error e => simp [hadd] at h
    | ok next =>
      rw [hadd] at h
      exact ih (hb.add hadd) h

/-- What adding values one after the other makes of a builder. -/
theorem addAll_eq_ok (h : b.addAll added = .ok b') : b' = b.extend added := by
  cases added with
  | nil =>
    cases h
    simp
  | cons a added =>
    cases hadd : b.add a with
    | error e => simp [addAll_cons, hadd] at h
    | ok next =>
      exact ((addAll_eq_ok_iff (add_eq_ok hadd).1).1 h).2.2

/-- The value of a name among additions of different names. -/
theorem value?_of_mem (hdistinct : (b.additions.map Addition.name).Nodup) (ha : a ∈ b.additions) :
    b.value? a.name = some a.value := by
  obtain ⟨a', ha'⟩ : ∃ a', b.additions.find? (·.name = a.name) = some a' := by
    rw [← Option.isSome_iff_exists, List.find?_isSome]
    exact ⟨a, ha, by simp⟩
  have hname : a'.name = a.name := by simpa using List.find?_some ha'
  have hsame := List.inj_on_of_nodup_map hdistinct (List.mem_of_find?_eq_some ha') ha hname
  rw [value?, ha', hsame]
  rfl

end EventTrace.RecordBuilder
