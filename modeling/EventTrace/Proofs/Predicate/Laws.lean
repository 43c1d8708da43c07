import EventTrace.Proofs.Predicate.Meaning

/-!
# Laws of predicates

`Predicate.Eqv` are the laws of Boolean combination that keep the order of evaluation: lists against
pairs, lists within lists, re-association and De Morgan, anywhere in a predicate. There is one lemma for
each law, and none of them can be noticed, neither in the outcome nor in what is left behind
(`Predicate.Eqv.evaluate_eq`).
-/

namespace EventTrace

variable {μ : Type}

/-! ## Evaluations -/

namespace Evaluation

variable (a b : Evaluation μ)

@[simp] theorem constant_true_and : (constant true).and a = a := by
  simp [and, constant, after]

@[simp] theorem and_constant_true : a.and (constant true) = a := by
  rw [and]
  obtain ⟨result, trail⟩ := a
  cases result <;> simp [constant, after]

@[simp] theorem constant_false_or : (constant false).or a = a := by
  simp [or, constant, after]

@[simp] theorem or_constant_false : a.or (constant false) = a := by
  rw [or]
  obtain ⟨result, trail⟩ := a
  cases result <;> simp [constant, after]

@[simp] theorem not_not : a.not.not = a := by
  simp [not]

theorem not_and : (a.and b).not = a.not.or b.not := by
  rw [and, or]
  cases h : a.result <;> simp [not, after, h]

theorem not_or : (a.or b).not = a.not.and b.not := by
  rw [and, or]
  cases h : a.result <;> simp [not, after, h]

end Evaluation

namespace Predicate

/-! ## Laws -/

/-- Whether two predicates are the same by the laws of Boolean combination that keep the order of
evaluation, applied anywhere in them. -/
inductive Eqv : Predicate μ → Predicate μ → Prop
  | refl (q : Predicate μ) : Eqv q q
  | symm {q r : Predicate μ} : Eqv q r → Eqv r q
  | trans {q r s : Predicate μ} : Eqv q r → Eqv r s → Eqv q s
  -- in any place of a predicate
  | and {q q' r r' : Predicate μ} : Eqv q q' → Eqv r r' → Eqv (.and q r) (.and q' r')
  | or {q q' r r' : Predicate μ} : Eqv q q' → Eqv r r' → Eqv (.or q r) (.or q' r')
  | not {q q' : Predicate μ} : Eqv q q' → Eqv (.not q) (.not q')
  | allOf {q q' : Predicate μ} (before after : List (Predicate μ)) :
    Eqv q q' → Eqv (.allOf (before ++ q :: after)) (.allOf (before ++ q' :: after))
  | anyOf {q q' : Predicate μ} (before after : List (Predicate μ)) :
    Eqv q q' → Eqv (.anyOf (before ++ q :: after)) (.anyOf (before ++ q' :: after))
  -- lists against pairs
  | allOf_foldr (qs : List (Predicate μ)) : Eqv (.allOf qs) (qs.foldr .and .any)
  | anyOf_foldr (qs : List (Predicate μ)) : Eqv (.anyOf qs) (qs.foldr .or (.not .any))
  -- lists within lists
  | allOf_flatten (before inner after : List (Predicate μ)) :
    Eqv (.allOf (before ++ .allOf inner :: after)) (.allOf (before ++ inner ++ after))
  | anyOf_flatten (before inner after : List (Predicate μ)) :
    Eqv (.anyOf (before ++ .anyOf inner :: after)) (.anyOf (before ++ inner ++ after))
  -- re-association
  | and_assoc (q r s : Predicate μ) : Eqv (.and (.and q r) s) (.and q (.and r s))
  | or_assoc (q r s : Predicate μ) : Eqv (.or (.or q r) s) (.or q (.or r s))
  -- De Morgan
  | not_not (q : Predicate μ) : Eqv (.not (.not q)) q
  | not_and (q r : Predicate μ) : Eqv (.not (.and q r)) (.or (.not q) (.not r))
  | not_or (q r : Predicate μ) : Eqv (.not (.or q r)) (.and (.not q) (.not r))
  | allOf_not (qs : List (Predicate μ)) : Eqv (.allOf qs) (.not (.anyOf (qs.map .not)))
  | anyOf_not (qs : List (Predicate μ)) : Eqv (.anyOf qs) (.not (.allOf (qs.map .not)))

section Laws

variable [Codecs] (p : FieldReader) (before inner after qs : List (Predicate μ))

theorem evaluateAll_append :
    evaluateAll p (before ++ after) = (evaluateAll p before).and (evaluateAll p after) := by
  induction before with
  | nil => rw [List.nil_append, evaluateAll, Evaluation.constant_true_and]
  | cons q rest ih => rw [List.cons_append, evaluateAll, evaluateAll, ih, Evaluation.and_assoc]

theorem evaluateAny_append :
    evaluateAny p (before ++ after) = (evaluateAny p before).or (evaluateAny p after) := by
  induction before with
  | nil => rw [List.nil_append, evaluateAny, Evaluation.constant_false_or]
  | cons q rest ih => rw [List.cons_append, evaluateAny, evaluateAny, ih, Evaluation.or_assoc]

theorem evaluate_foldr_and : evaluate p (qs.foldr .and .any) = evaluateAll p qs := by
  induction qs with
  | nil => rfl
  | cons q rest ih => rw [List.foldr_cons, evaluate, ih, evaluateAll]

theorem evaluate_foldr_or : evaluate p (qs.foldr .or (.not .any)) = evaluateAny p qs := by
  induction qs with
  | nil => rfl
  | cons q rest ih => rw [List.foldr_cons, evaluate, ih, evaluateAny]

theorem evaluateAll_flatten :
    evaluateAll p (before ++ .allOf inner :: after) = evaluateAll p (before ++ inner ++ after) := by
  rw [evaluateAll_append, evaluateAll_append, evaluateAll_append, evaluateAll, evaluate,
    Evaluation.and_assoc]

theorem evaluateAny_flatten :
    evaluateAny p (before ++ .anyOf inner :: after) = evaluateAny p (before ++ inner ++ after) := by
  rw [evaluateAny_append, evaluateAny_append, evaluateAny_append, evaluateAny, evaluate,
    Evaluation.or_assoc]

/-- That none of the negated predicates holds is that all of the predicates do. -/
theorem not_evaluateAny : (evaluateAny p (qs.map .not)).not = evaluateAll p qs := by
  induction qs with
  | nil => rfl
  | cons q rest ih =>
    rw [List.map_cons, evaluateAny, Evaluation.not_or, ih, evaluate, Evaluation.not_not, evaluateAll]

/-- That not all of the negated predicates hold is that one of the predicates does. -/
theorem not_evaluateAll : (evaluateAll p (qs.map .not)).not = evaluateAny p qs := by
  induction qs with
  | nil => rfl
  | cons q rest ih =>
    rw [List.map_cons, evaluateAll, Evaluation.not_and, ih, evaluate, Evaluation.not_not, evaluateAny]

/-- Predicates that are the same by the laws are evaluated alike: with the same outcome, and with the
same left behind. -/
theorem Eqv.evaluate_eq {q r : Predicate μ} (h : Eqv q r) : evaluate p q = evaluate p r := by
  induction h with
  | refl q => rfl
  | symm _ ih => exact ih.symm
  | trans _ _ ih ih' => exact ih.trans ih'
  | and _ _ ih ih' => rw [evaluate, evaluate, ih, ih']
  | or _ _ ih ih' => rw [evaluate, evaluate, ih, ih']
  | not _ ih => rw [evaluate, evaluate, ih]
  | allOf before after _ ih =>
    rw [evaluate, evaluate, evaluateAll_append, evaluateAll_append, evaluateAll, evaluateAll, ih]
  | anyOf before after _ ih =>
    rw [evaluate, evaluate, evaluateAny_append, evaluateAny_append, evaluateAny, evaluateAny, ih]
  | allOf_foldr qs => rw [evaluate, evaluate_foldr_and]
  | anyOf_foldr qs => rw [evaluate, evaluate_foldr_or]
  | allOf_flatten before inner after => rw [evaluate, evaluate, evaluateAll_flatten]
  | anyOf_flatten before inner after => rw [evaluate, evaluate, evaluateAny_flatten]
  | and_assoc q r s => simp only [evaluate, Evaluation.and_assoc]
  | or_assoc q r s => simp only [evaluate, Evaluation.or_assoc]
  | not_not q => rw [evaluate, evaluate, Evaluation.not_not]
  | not_and q r => simp only [evaluate, Evaluation.not_and]
  | not_or q r => simp only [evaluate, Evaluation.not_or]
  | allOf_not qs => rw [evaluate, evaluate, evaluate, not_evaluateAny]
  | anyOf_not qs => rw [evaluate, evaluate, evaluate, not_evaluateAll]

/-- A predicate comes to what its Boolean reading says. Of the conditions of a caller's own, those leave
their marks that the evaluation reaches, from left to right; where all are probes, these are the marks of
some of them. None of this can tell predicates that are the same by the laws. -/
theorem evaluate_lawful (q : Predicate μ) :
    ((q.evaluate p).result = true ↔ p.Meets q) ∧
    ((q.evaluate p).marks = marksOf p (reached p q) ∧ (reached p q).Sublist q.leaves) ∧
    (∀ asked : List (μ × Bool), q.leaves = asked.map (fun a => probe a.1 a.2) →
      (q.evaluate p).marks.Sublist (asked.map Prod.fst)) ∧
    ∀ r, Eqv q r → r.evaluate p = q.evaluate p := by
  refine ⟨result_evaluate_iff p q, ⟨marks_evaluate p q, reached_sublist p q⟩, ?_, ?_⟩
  · intro asked hprobes
    exact marks_sublist_of_probes p hprobes
  · intro r h
    exact (h.evaluate_eq p).symm

end Laws

end Predicate

end EventTrace
