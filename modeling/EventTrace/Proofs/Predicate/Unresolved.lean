import EventTrace.Predicate.Machine
import EventTrace.Proofs.Predicate.Meaning
import EventTrace.Proofs.Reading.Machine

/-!
# Records without a layout

A batch sees a record that has no layout without fields. No field of it can be read, so the conditions
on fields are as good as ones that never hold (`Predicate.holds_withFields`), also below negations, and
what is left of a predicate looks at the header only (`Predicate.evaluate_unresolved_congr`). In words,
neither the conditions on such a record nor those on one that has a layout stop a batch
(`Machine.filterRecords_eq`). `Predicate.header_decides` puts this together.
-/

namespace EventTrace

variable {μ : Type}

/-! ## Predicates without conditions on fields -/

namespace Predicate

mutual

/-- A predicate with another one in place of each condition on a field. -/
def withFields (never : Predicate μ) : Predicate μ → Predicate μ
  | .fieldEq _ _ | .text _ _ _ _ => never
  | .and left right => .and (withFields never left) (withFields never right)
  | .or left right => .or (withFields never left) (withFields never right)
  | .not inner => .not (withFields never inner)
  | .allOf inner => .allOf (withFieldsEach never inner)
  | .anyOf inner => .anyOf (withFieldsEach never inner)
  | .any => .any
  | .header test => .header test
  | .custom leaf => .custom leaf

def withFieldsEach (never : Predicate μ) : List (Predicate μ) → List (Predicate μ)
  | [] => []
  | q :: rest => withFields never q :: withFieldsEach never rest

end

end Predicate

/-! ## Readers without fields -/

section

variable [Codecs]

namespace FieldReader

/-- The reader of a record without a layout. -/
def unresolved (r : Record) (settings : Settings) : FieldReader := ⟨r, .empty r.key, settings⟩

variable (r : Record) (settings : Settings)

/-- No field is found without a layout. -/
theorem read_unresolved (request : Request) (name : String) :
    (unresolved r settings).read request name = .error (.fieldNotFound name r.key) := rfl

theorem readLines_unresolved (request : Request) (name : String) :
    (unresolved r settings).readLines request name = [] := rfl

end FieldReader

namespace Predicate

section Fields

variable {p : FieldReader} {never : Predicate μ}

/-- A condition on a field does not hold where no field can be read. -/
theorem not_meets_field (hread : ∀ request name, ∃ e, p.read request name = .error e) :
    (∀ field value, ¬p.Meets (.fieldEq field value : Predicate μ)) ∧
      ∀ field test needle mode, ¬p.Meets (.text field test needle mode : Predicate μ) := by
  constructor
  · rintro field value ⟨v, hv, -⟩
    obtain ⟨e, he⟩ := hread .any field
    cases hv.symm.trans he
  · rintro field test needle mode ⟨s, hs, -⟩
    obtain ⟨e, he⟩ := hread .text field
    cases hs.symm.trans he

mutual

/-- Where no field can be read, the conditions on fields may be replaced by one that does not hold. -/
theorem meets_withFields (hread : ∀ request name, ∃ e, p.read request name = .error e)
    (hnever : ¬p.Meets never) : ∀ q : Predicate μ, p.Meets (withFields never q) ↔ p.Meets q
  | .any | .header _ | .custom _ => by rw [withFields]
  | .fieldEq field value => by
    rw [withFields]
    exact iff_of_false hnever ((not_meets_field hread).1 field value)
  | .text field test needle mode => by
    rw [withFields]
    exact iff_of_false hnever ((not_meets_field hread).2 field test needle mode)
  | .and left right => by
    rw [withFields, FieldReader.Meets, FieldReader.Meets, meets_withFields hread hnever left,
      meets_withFields hread hnever right]
  | .or left right => by
    rw [withFields, FieldReader.Meets, FieldReader.Meets, meets_withFields hread hnever left,
      meets_withFields hread hnever right]
  | .not inner => by
    rw [withFields, FieldReader.Meets, FieldReader.Meets, meets_withFields hread hnever inner]
  | .allOf inner => by
    rw [withFields, FieldReader.Meets, FieldReader.Meets]
    exact (meets_withFieldsEach hread hnever inner).1
  | .anyOf inner => by
    rw [withFields, FieldReader.Meets, FieldReader.Meets]
    exact (meets_withFieldsEach hread hnever inner).2

/-- Where no field can be read, the tests of fields mean what a predicate that never holds means. -/
theorem meets_withFieldsEach (hread : ∀ request name, ∃ e, p.read request name = .error e)
    (hnever : ¬p.Meets never) : ∀ qs : List (Predicate μ),
    (p.MeetsAll (withFieldsEach never qs) ↔ p.MeetsAll qs) ∧
      (p.MeetsAny (withFieldsEach never qs) ↔ p.MeetsAny qs)
  | [] => by rw [withFieldsEach]; exact ⟨.rfl, .rfl⟩
  | q :: rest => by
    obtain ⟨hall, hany⟩ := meets_withFieldsEach hread hnever rest
    have hq := meets_withFields hread hnever q
    rw [withFieldsEach]
    constructor
    · rw [FieldReader.MeetsAll, FieldReader.MeetsAll, hq, hall]
    · rw [FieldReader.MeetsAny, FieldReader.MeetsAny, hq, hany]

end

/-- Where no field can be read, a predicate decides as it does with a condition in place of those on
fields that does not hold. -/
theorem holds_withFields (hread : ∀ request name, ∃ e, p.read request name = .error e)
    (hnever : never.holds p = false) (q : Predicate μ) : (withFields never q).holds p = q.holds p := by
  rw [holds, ← Bool.not_eq_true, result_evaluate_iff] at hnever
  rw [holds, holds, Bool.eq_iff_iff, result_evaluate_iff, result_evaluate_iff,
    meets_withFields hread hnever]

end Fields

/-! ## Decisions about records without a layout -/

section Records

variable {source : LayoutSource} {settings : Settings} {r : Record} {e : LayoutError}

/-- A batch decides about a record that has no layout as it does without fields. -/
theorem keeps_of_resolve_error (h : source.resolve r.key = .error e) (q : Predicate μ) :
    q.keeps source settings r = q.holds (.unresolved r settings) := by
  simp only [keeps, evaluateRecord, h]
  rfl

theorem keeps_of_resolve {layout : Layout} (h : source.resolve r.key = .ok layout) (q : Predicate μ) :
    q.keeps source settings r = q.holds ⟨r, layout, settings⟩ := by
  simp only [keeps, evaluateRecord, h]
  rfl

/-- Without a layout, predicates without conditions of a caller's own tell records apart by their headers
only. -/
theorem evaluate_unresolved_congr {r' : Record} (hheader : r'.header = r.header) {q : Predicate μ}
    (hleaves : q.leaves = []) (settings' : Settings) :
    q.evaluate (.unresolved r' settings') = q.evaluate (.unresolved r settings) := by
  have hkey : r'.key = r.key := congrArg EventHeader.key hheader
  refine evaluate_congr hheader ?_ ?_ q ?_
  · funext request name
    rw [FieldReader.read_unresolved, FieldReader.read_unresolved, hkey]
  · funext request name
    rw [FieldReader.readLines_unresolved, FieldReader.readLines_unresolved]
  · rw [hleaves]
    intro leaf hleaf
    cases hleaf

end Records

end Predicate

/-! ## Batches in words -/

namespace Machine

section Evaluation

variable {p : FieldReader}

theorem fieldHolds_eq {field : String} {request : Request}
    (hread : read p request field = some (p.read request field)) (decide : Extract → Bool) :
    fieldHolds p field request decide =
      some (Predicate.fieldLeaf p field request decide : Evaluation μ).result := by
  rw [fieldHolds, hread, Predicate.fieldLeaf]
  cases p.read request field <;> rfl

mutual

/-- Where no read stops the machine, no predicate does. -/
theorem holds_eq (hread : ∀ request name, read p request name = some (p.read request name)) :
    ∀ q : Predicate μ, holds p q = some (q.evaluate p).result
  | .any => by rw [holds, Predicate.evaluate, Evaluation.result_constant]
  | .header _ => by rw [holds, Predicate.evaluate, Evaluation.result_constant]
  | .fieldEq _ _ => by rw [holds, fieldHolds_eq (hread _ _), Predicate.evaluate]
  | .text _ _ _ _ => by rw [holds, fieldHolds_eq (hread _ _), Predicate.evaluate]
  | .and left right => by
    rw [holds, holds_eq hread left, holds_eq hread right, Predicate.evaluate, Evaluation.result_and]
    cases (left.evaluate p).result <;> rfl
  | .or left right => by
    rw [holds, holds_eq hread left, holds_eq hread right, Predicate.evaluate, Evaluation.result_or]
    cases (left.evaluate p).result <;> rfl
  | .not inner => by
    rw [holds, holds_eq hread inner, Predicate.evaluate, Evaluation.result_not]
    rfl
  | .allOf inner => by rw [holds, (holdsEach_eq hread inner).1, Predicate.evaluate]
  | .anyOf inner => by rw [holds, (holdsEach_eq hread inner).2, Predicate.evaluate]
  | .custom _ => by rw [holds, Predicate.evaluate]

/-- A list is tested in place as it is evaluated, and stops nothing. -/
theorem holdsEach_eq (hread : ∀ request name, read p request name = some (p.read request name)) :
    ∀ qs : List (Predicate μ), holdsAll p qs = some (Predicate.evaluateAll p qs).result ∧
      holdsAny p qs = some (Predicate.evaluateAny p qs).result
  | [] => by
    rw [holdsAll, holdsAny, Predicate.evaluateAll, Predicate.evaluateAny]
    exact ⟨rfl, rfl⟩
  | q :: rest => by
    obtain ⟨hall, hany⟩ := holdsEach_eq hread rest
    have hq := holds_eq hread q
    constructor
    · rw [holdsAll, hq, hall, Predicate.evaluateAll, Evaluation.result_and]
      cases (q.evaluate p).result <;> rfl
    · rw [holdsAny, hq, hany, Predicate.evaluateAny, Evaluation.result_or]
      cases (q.evaluate p).result <;> rfl

end

end Evaluation

variable {q : Predicate μ} {source : LayoutSource} {settings : Settings}

/-- Nothing stops the decision about a record that has no layout or whose data a word can measure. -/
theorem keeps_eq {r : Record}
    (hsize : ∀ layout, source.resolve r.key = .ok layout → r.userData.length + 2 < lengthBound) :
    keeps q source settings r = some (q.keeps source settings r) := by
  rw [keeps]
  cases hresolve : source.resolve r.key with
  | ok layout =>
    rw [Predicate.keeps_of_resolve hresolve]
    have hdata : (⟨r, layout, settings⟩ : FieldReader).data.length + 2 < lengthBound :=
      hsize layout hresolve
    exact holds_eq (read_eq hdata) q
  | error e =>
    rw [Predicate.keeps_of_resolve_error hresolve]
    exact holds_eq (fun request name => rfl) q

/-- Nothing stops a batch of such records. -/
theorem filterRecords_eq {records : List Record} (hsize : ∀ r ∈ records, ∀ layout,
      source.resolve r.key = .ok layout → r.userData.length + 2 < lengthBound) :
    filterRecords q source settings records = some (records.filter (q.keeps source settings)) := by
  induction records with
  | nil => rfl
  | cons r rest ih =>
    obtain ⟨hr, hrest⟩ := List.forall_mem_cons.1 hsize
    rw [filterRecords, keeps_eq hr, ih hrest, List.filter_cons]
    rfl

end Machine

/-! ## The header decides -/

namespace Predicate

/-- About a record that has no layout, only the header decides: a batch keeps it exactly if the predicate
holds with conditions in place of those on fields that never hold; without conditions of a caller's own,
records with the same header are decided alike, whatever else they hold; and the record stops no batch. -/
theorem header_decides [pool : Pool] (hpool : pool.Lawful) {source : LayoutSource}
    {settings : Settings} {r : Record} {e : LayoutError} (h : source.resolve r.key = .error e)
    (q : Predicate μ) :
    (∀ never : Predicate μ, (∀ p, never.holds p = false) → ∀ before after : List Record,
      (filterRecords q source settings (before ++ r :: after)).kept =
        (filterRecords q source settings before).kept ++
          (if (withFields never q).holds (.unresolved r settings) then [r] else []) ++
          (filterRecords q source settings after).kept) ∧
    (q.leaves = [] → ∀ source' settings' r' e', r'.header = r.header →
      source'.resolve r'.key = .error e' →
        q.keeps source' settings' r' = q.keeps source settings r) ∧
    ∀ before after : List Record,
      (∀ other ∈ before ++ after, ∀ layout, source.resolve other.key = .ok layout →
        other.userData.length + 2 < lengthBound) →
      Machine.filterRecords q source settings (before ++ r :: after) =
        some (filterRecords q source settings (before ++ r :: after)).kept := by
  refine ⟨?_, ?_, ?_⟩
  · intro never hnever before after
    have hread : ∀ request name, ∃ e, (FieldReader.unresolved r settings).read request name = .error e :=
      fun request name => ⟨_, FieldReader.read_unresolved r settings request name⟩
    rw [holds_withFields hread (hnever _), ← keeps_of_resolve_error h]
    rw [kept_filterRecords hpool, kept_filterRecords hpool, kept_filterRecords hpool,
      List.filter_append, List.filter_cons, List.append_assoc]
    cases q.keeps source settings r <;> rfl
  · intro hleaves source' settings' r' e' hheader h'
    rw [keeps_of_resolve_error h, keeps_of_resolve_error h', holds, holds,
      evaluate_unresolved_congr hheader hleaves]
  · intro before after hsize
    rw [kept_filterRecords hpool]
    apply Machine.filterRecords_eq
    intro other hother layout hlayout
    rw [List.mem_append, List.mem_cons, or_left_comm, ← List.mem_append] at hother
    rcases hother with rfl | hother
    · cases h.symm.trans hlayout
    · exact hsize other hother layout hlayout

end Predicate

end

namespace Predicate

/-- Events of one kind, except those of one type. -/
def untyped : Predicate Empty :=
  .and (.header (.eventId 4624)) (.not (.fieldEq "LogonType" (.scalar (.word .int32 2))))

def unlisted : Record := .new (.new .nil 4624 0) [0xde, 0xad]

/-- Where the event has no layout, it is not of the type either. -/
theorem header_decides_unlisted :
    (LayoutSource.registry .empty).resolve unlisted.key = .error (.notFound unlisted.key) ∧
      (filterRecords untyped (.registry .empty) {} [unlisted]).kept = [unlisted] := by
  have hresolve : (LayoutSource.registry .empty).resolve unlisted.key =
    .error (.notFound unlisted.key) := rfl
  obtain ⟨hkept, -⟩ := header_decides Pool.lawful_sequential hresolve untyped
  exact ⟨hresolve, hkept (.not .any) (fun _ => rfl) [] []⟩

end Predicate

end EventTrace
