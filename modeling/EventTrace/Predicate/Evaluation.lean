import EventTrace.Log

/-!
# Evaluations

The outcome of a condition together with what its evaluation left behind: marks set by parts that a
caller supplied, and log lines, each in their order. Evaluations combine as Boolean values do, from
left to right, and stop once the outcome is known; both ways to combine them are associative.
-/

namespace EventTrace

/-- What something left behind. -/
structure Trail (μ : Type) where
  marks : List μ := []
  lines : List Log.Line := []

namespace Trail

variable {μ : Type}

def append (a b : Trail μ) : Trail μ := ⟨a.marks ++ b.marks, a.lines ++ b.lines⟩

instance : Append (Trail μ) := ⟨append⟩

/-- What several things left behind, one after the other. -/
def joined (trails : List (Trail μ)) : Trail μ := ⟨trails.flatMap marks, trails.flatMap lines⟩

/-- Whether two things left the same behind, in whatever order. -/
def Perm (a b : Trail μ) : Prop := a.marks.Perm b.marks ∧ a.lines.Perm b.lines

/-- Whether what one thing left behind is there in what another did, in its order. -/
def Sublist (a b : Trail μ) : Prop := a.marks.Sublist b.marks ∧ a.lines.Sublist b.lines

theorem append_def (a b : Trail μ) : a ++ b = ⟨a.marks ++ b.marks, a.lines ++ b.lines⟩ := rfl

@[simp] theorem marks_append (a b : Trail μ) : (a ++ b).marks = a.marks ++ b.marks := rfl

@[simp] theorem lines_append (a b : Trail μ) : (a ++ b).lines = a.lines ++ b.lines := rfl

@[simp] theorem append_empty (a : Trail μ) : a ++ ({} : Trail μ) = a := by
  simp [append_def]

@[simp] theorem empty_append (a : Trail μ) : ({} : Trail μ) ++ a = a := by
  simp [append_def]

theorem append_assoc (a b c : Trail μ) : a ++ b ++ c = a ++ (b ++ c) := by
  simp [append_def]

theorem Perm.symm {a b : Trail μ} (h : a.Perm b) : b.Perm a := ⟨h.1.symm, h.2.symm⟩

theorem Perm.trans {a b c : Trail μ} (h : a.Perm b) (h' : b.Perm c) : a.Perm c :=
  ⟨h.1.trans h'.1, h.2.trans h'.2⟩

@[simp] theorem joined_singleton (t : Trail μ) : joined [t] = t := by
  simp [joined]

theorem sublist_joined {t : Trail μ} {trails : List (Trail μ)} (h : t ∈ trails) :
    t.Sublist (joined trails) :=
  ⟨List.sublist_flatten_of_mem (List.mem_map_of_mem h),
    List.sublist_flatten_of_mem (List.mem_map_of_mem h)⟩

/-- What is there in its order, with nothing else, is all there is. -/
theorem Sublist.eq_of_perm {a b : Trail μ} (h : a.Sublist b) (hperm : b.Perm a) : b = a := by
  obtain ⟨hmarks, hlines⟩ := h
  have hmarks := hmarks.eq_of_length hperm.1.length_eq.symm
  have hlines := hlines.eq_of_length hperm.2.length_eq.symm
  cases a
  cases b
  subst hmarks
  subst hlines
  rfl

end Trail

/-- The outcome of a condition and what was left behind on the way. -/
structure Evaluation (μ : Type) where
  result : Bool
  trail : Trail μ := {}

namespace Evaluation

variable {μ : Type}

def marks (e : Evaluation μ) : List μ := e.trail.marks

def lines (e : Evaluation μ) : List Log.Line := e.trail.lines

/-- An outcome that leaves nothing behind. -/
def constant (b : Bool) : Evaluation μ := { result := b }

def after (first : Trail μ) (e : Evaluation μ) : Evaluation μ := ⟨e.result, first ++ e.trail⟩

def not (e : Evaluation μ) : Evaluation μ := ⟨!e.result, e.trail⟩

/-- Both: the second is looked at only if the first holds. -/
def and (a b : Evaluation μ) : Evaluation μ := if a.result then b.after a.trail else a

/-- Either: the second is looked at only if the first does not hold. -/
def or (a b : Evaluation μ) : Evaluation μ := if a.result then a else b.after a.trail

@[simp] theorem result_and (a b : Evaluation μ) : (a.and b).result = (a.result && b.result) := by
  unfold and
  cases h : a.result <;> simp [h, after]

@[simp] theorem result_or (a b : Evaluation μ) : (a.or b).result = (a.result || b.result) := by
  unfold or
  cases h : a.result <;> simp [h, after]

theorem and_assoc (a b c : Evaluation μ) : (a.and b).and c = a.and (b.and c) := by
  unfold and
  cases ha : a.result <;> cases hb : b.result <;> simp [after, ha, hb, Trail.append_assoc]

theorem or_assoc (a b c : Evaluation μ) : (a.or b).or c = a.or (b.or c) := by
  unfold or
  cases ha : a.result <;> cases hb : b.result <;> simp [after, ha, hb, Trail.append_assoc]

end Evaluation

end EventTrace
