import EventTrace.Proofs.Filter
import Mathlib.Data.List.Flatten

/-!
# What predicates mean

The outcome of a predicate is that of its Boolean reading, in which every condition is taken on its own
and a field that cannot be read meets none (`Predicate.result_evaluate_iff`). What the evaluation leaves
behind comes from the conditions that it reaches (`Predicate.marks_evaluate`), which are some of those in
the predicate, from left to right (`Predicate.reached_sublist`).
-/

namespace EventTrace

variable {μ : Type}

/-! ## Evaluations -/

namespace Evaluation

variable (a b : Evaluation μ)

@[simp] theorem result_constant (c : Bool) : (constant c : Evaluation μ).result = c := rfl

@[simp] theorem marks_constant (c : Bool) : (constant c : Evaluation μ).marks = [] := rfl

@[simp] theorem result_not : a.not.result = !a.result := rfl

@[simp] theorem marks_not : a.not.marks = a.marks := rfl

theorem marks_and : (a.and b).marks = a.marks ++ if a.result then b.marks else [] := by
  rw [marks, trail_and]
  cases a.result <;> simp [marks]

theorem marks_or : (a.or b).marks = a.marks ++ if a.result then [] else b.marks := by
  rw [or]
  cases a.result <;> simp [marks, after]

end Evaluation

/-! ## The Boolean reading -/

section Reading

variable [Codecs] (p : FieldReader)

namespace FieldReader

mutual

/-- Whether the record of a reader meets a predicate, read as a Boolean formula. -/
def Meets : Predicate μ → Prop
  | .any => True
  | .header test => test.holds p.record.header = true
  | .fieldEq field value => ∃ v, p.read .any field = .ok (.value v) ∧ v.agrees value = true
  | .text field test needle mode =>
    ∃ s, p.read .text field = .ok (.text s) ∧ test.holds mode s needle = true
  | .and left right => Meets left ∧ Meets right
  | .or left right => Meets left ∨ Meets right
  | .not inner => ¬Meets inner
  | .allOf inner => MeetsAll inner
  | .anyOf inner => MeetsAny inner
  | .custom leaf => (leaf p).result = true

def MeetsAll : List (Predicate μ) → Prop
  | [] => True
  | q :: rest => Meets q ∧ MeetsAll rest

def MeetsAny : List (Predicate μ) → Prop
  | [] => False
  | q :: rest => Meets q ∨ MeetsAny rest

end

/-- A conjunction is met exactly if all of its predicates are. -/
theorem meets_allOf_iff {qs : List (Predicate μ)} : p.Meets (.allOf qs) ↔ ∀ q ∈ qs, p.Meets q := by
  rw [Meets]
  induction qs with
  | nil => simp [MeetsAll]
  | cons q rest ih => rw [MeetsAll, ih, List.forall_mem_cons]

/-- A disjunction is met exactly if one of its predicates is. -/
theorem meets_anyOf_iff {qs : List (Predicate μ)} : p.Meets (.anyOf qs) ↔ ∃ q ∈ qs, p.Meets q := by
  rw [Meets]
  induction qs with
  | nil => simp [MeetsAny]
  | cons q rest ih => simp [MeetsAny, ih]

end FieldReader

namespace Predicate

/-- A condition on a field does not hold if the field cannot be read. -/
theorem result_fieldLeaf (field : String) (request : Request) (decide : Extract → Bool) :
    (fieldLeaf p field request decide : Evaluation μ).result = true ↔
      ∃ x, p.read request field = .ok x ∧ decide x = true := by
  rw [fieldLeaf]
  cases p.read request field <;> simp

mutual

/-- A predicate comes to what its Boolean reading says. -/
theorem result_evaluate_iff : ∀ q : Predicate μ, (q.evaluate p).result = true ↔ p.Meets q
  | .any => by simp [evaluate, FieldReader.Meets]
  | .header test => by simp [evaluate, FieldReader.Meets]
  | .fieldEq field value => by
    rw [evaluate, result_fieldLeaf, FieldReader.Meets]
    constructor
    · rintro ⟨x, hx, h⟩
      cases x with
      | value v => exact ⟨v, hx, h⟩
      | _ => cases h
    · rintro ⟨v, hv, h⟩
      exact ⟨_, hv, h⟩
  | .text field test needle mode => by
    rw [evaluate, result_fieldLeaf, FieldReader.Meets]
    constructor
    · rintro ⟨x, hx, h⟩
      cases x with
      | text s => exact ⟨s, hx, h⟩
      | _ => cases h
    · rintro ⟨s, hs, h⟩
      exact ⟨_, hs, h⟩
  | .and left right => by
    rw [evaluate, Evaluation.result_and, Bool.and_eq_true, FieldReader.Meets,
      result_evaluate_iff left, result_evaluate_iff right]
  | .or left right => by
    rw [evaluate, Evaluation.result_or, Bool.or_eq_true, FieldReader.Meets,
      result_evaluate_iff left, result_evaluate_iff right]
  | .not inner => by
    rw [evaluate, Evaluation.result_not, Bool.not_eq_true', FieldReader.Meets,
      ← result_evaluate_iff inner, Bool.not_eq_true]
  | .allOf inner => by
    rw [evaluate, FieldReader.Meets]
    exact (result_evaluateEach_iff inner).1
  | .anyOf inner => by
    rw [evaluate, FieldReader.Meets]
    exact (result_evaluateEach_iff inner).2
  | .custom leaf => by rw [evaluate, FieldReader.Meets]

/-- A list is evaluated to what all or any of its predicates mean. -/
theorem result_evaluateEach_iff : ∀ qs : List (Predicate μ),
    ((evaluateAll p qs).result = true ↔ p.MeetsAll qs) ∧
      ((evaluateAny p qs).result = true ↔ p.MeetsAny qs)
  | [] => by simp [evaluateAll, evaluateAny, FieldReader.MeetsAll, FieldReader.MeetsAny]
  | q :: rest => by
    obtain ⟨hall, hany⟩ := result_evaluateEach_iff rest
    have hq := result_evaluate_iff q
    constructor
    · rw [evaluateAll, Evaluation.result_and, Bool.and_eq_true, FieldReader.MeetsAll, hq, hall]
    · rw [evaluateAny, Evaluation.result_or, Bool.or_eq_true, FieldReader.MeetsAny, hq, hany]

end

/-! ## What is reached -/

mutual

/-- The conditions of a caller's own that an evaluation reaches: those behind a part that settles the
outcome are not looked at. -/
def reached : Predicate μ → List (FieldReader → Evaluation μ)
  | .custom leaf => [leaf]
  | .and left right => reached left ++ if left.holds p then reached right else []
  | .or left right => reached left ++ if left.holds p then [] else reached right
  | .not inner => reached inner
  | .allOf inner => reachedAll inner
  | .anyOf inner => reachedAny inner
  | .any | .header _ | .fieldEq _ _ | .text _ _ _ _ => []

def reachedAll : List (Predicate μ) → List (FieldReader → Evaluation μ)
  | [] => []
  | q :: rest => reached q ++ if q.holds p then reachedAll rest else []

def reachedAny : List (Predicate μ) → List (FieldReader → Evaluation μ)
  | [] => []
  | q :: rest => reached q ++ if q.holds p then [] else reachedAny rest

end

/-- What some conditions of a caller's own leave behind, one after the other. -/
def marksOf (conditions : List (FieldReader → Evaluation μ)) : List μ :=
  conditions.flatMap fun leaf => (leaf p).marks

omit [Codecs] in
theorem marksOf_append (front back : List (FieldReader → Evaluation μ)) :
    marksOf p (front ++ back) = marksOf p front ++ marksOf p back :=
  List.flatMap_append

omit [Codecs] in
theorem marksOf_ite (c : Prop) [Decidable c] (front back : List (FieldReader → Evaluation μ)) :
    marksOf p (if c then front else back) = if c then marksOf p front else marksOf p back :=
  apply_ite _ _ _ _

theorem marks_fieldLeaf (field : String) (request : Request) (decide : Extract → Bool) :
    (fieldLeaf p field request decide : Evaluation μ).marks = [] := by
  rw [fieldLeaf]
  cases p.read request field <;> rfl

mutual

/-- The marks that an evaluation leaves are those of the conditions that it reaches, in their order. -/
theorem marks_evaluate : ∀ q : Predicate μ, (q.evaluate p).marks = marksOf p (reached p q)
  | .any => rfl
  | .header test => rfl
  | .fieldEq field value => by
    rw [evaluate, marks_fieldLeaf, reached]
    rfl
  | .text field test needle mode => by
    rw [evaluate, marks_fieldLeaf, reached]
    rfl
  | .and left right => by
    rw [evaluate, Evaluation.marks_and, marks_evaluate left, marks_evaluate right, reached,
      marksOf_append, marksOf_ite]
    rfl
  | .or left right => by
    rw [evaluate, Evaluation.marks_or, marks_evaluate left, marks_evaluate right, reached,
      marksOf_append, marksOf_ite]
    rfl
  | .not inner => by rw [evaluate, Evaluation.marks_not, marks_evaluate inner, reached]
  | .allOf inner => by rw [evaluate, (marks_evaluateEach inner).1, reached]
  | .anyOf inner => by rw [evaluate, (marks_evaluateEach inner).2, reached]
  | .custom leaf => by simp [evaluate, reached, marksOf]

/-- A list leaves the marks of the leaves that it reaches. -/
theorem marks_evaluateEach : ∀ qs : List (Predicate μ),
    (evaluateAll p qs).marks = marksOf p (reachedAll p qs) ∧
      (evaluateAny p qs).marks = marksOf p (reachedAny p qs)
  | [] => ⟨rfl, rfl⟩
  | q :: rest => by
    obtain ⟨hall, hany⟩ := marks_evaluateEach rest
    have hq := marks_evaluate q
    constructor
    · rw [evaluateAll, Evaluation.marks_and, hq, hall, reachedAll, marksOf_append, marksOf_ite]
      rfl
    · rw [evaluateAny, Evaluation.marks_or, hq, hany, reachedAny, marksOf_append, marksOf_ite]
      rfl

end

mutual

/-- What is reached are some of the conditions in the predicate, from left to right. -/
theorem reached_sublist : ∀ q : Predicate μ, (reached p q).Sublist q.leaves
  | .any | .header _ | .fieldEq _ _ | .text _ _ _ _ => by
    simp only [reached, leaves, List.Sublist.refl]
  | .and left right => by
    rw [reached, leaves]
    refine (reached_sublist left).append ?_
    split
    · exact reached_sublist right
    · exact List.nil_sublist _
  | .or left right => by
    rw [reached, leaves]
    refine (reached_sublist left).append ?_
    split
    · exact List.nil_sublist _
    · exact reached_sublist right
  | .not inner => by
    rw [reached, leaves]
    exact reached_sublist inner
  | .allOf inner => by
    rw [reached, leaves]
    exact (reachedEach_sublist inner).1
  | .anyOf inner => by
    rw [reached, leaves]
    exact (reachedEach_sublist inner).2
  | .custom leaf => by
    simp only [reached, leaves, List.Sublist.refl]

/-- The leaves that are reached are some of all leaves, in their order. -/
theorem reachedEach_sublist : ∀ qs : List (Predicate μ),
    (reachedAll p qs).Sublist (leavesEach qs) ∧ (reachedAny p qs).Sublist (leavesEach qs)
  | [] => by
    rw [reachedAll, reachedAny, leavesEach]
    exact ⟨.refl _, .refl _⟩
  | q :: rest => by
    obtain ⟨hall, hany⟩ := reachedEach_sublist rest
    have hq := reached_sublist q
    rw [reachedAll, reachedAny, leavesEach]
    constructor
    · refine hq.append ?_
      split
      · exact hall
      · exact List.nil_sublist _
    · refine hq.append ?_
      split
      · exact List.nil_sublist _
      · exact hany

end

/-- A condition of a caller's own with a fixed outcome, which marks that it was asked. -/
def probe (id : μ) (result : Bool) : FieldReader → Evaluation μ :=
  fun _ => { result, trail := { marks := [id] } }

omit [Codecs] in
theorem marksOf_probes (asked : List (μ × Bool)) :
    marksOf p (asked.map fun a => probe a.1 a.2) = asked.map Prod.fst := by
  induction asked with
  | nil => rfl
  | cons a rest ih =>
    rw [List.map_cons, List.map_cons, ← ih]
    rfl

/-- Where all conditions of a caller's own are probes, some of them are asked, from left to right. -/
theorem marks_sublist_of_probes {q : Predicate μ} {asked : List (μ × Bool)}
    (h : q.leaves = asked.map fun a => probe a.1 a.2) :
    (q.evaluate p).marks.Sublist (asked.map Prod.fst) := by
  rw [marks_evaluate, ← marksOf_probes p, ← h]
  exact (reached_sublist p q).flatMap _

end Predicate

end Reading

end EventTrace
