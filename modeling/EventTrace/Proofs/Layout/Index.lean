import EventTrace.Layout.Index
import EventTrace.Proofs.Layout.WellFormed

/-!
# Places in an index

A layout with an index is built from the same fields as one without, and for the same reasons it is not:
an index that is filled field by field holds the place of every name so far (`Indexes`), so that what is
looked up in it is what is found among the fields, and no look-up stops the machine
(`IndexedLayout.indexFrom_eq`). Once it is built, it finds every name where the list has it
(`IndexedLayout.Represents`).
-/

namespace EventTrace

/-- Whether an index holds the places of fields, each under its name. -/
def Indexes (fields : List FieldSpec) (index : Std.HashMap String Nat) : Prop :=
  ∀ name, index[name]? = fields.findIdx? (·.name = name)

namespace Indexes

variable {fields : List FieldSpec} {index : Std.HashMap String Nat}

theorem nil : Indexes [] ∅ := by
  intro name
  rw [Std.HashMap.getElem?_empty, List.findIdx?_nil]

theorem contains_eq (h : Indexes fields index) (name : String) :
    index.contains name = (Layout.findField fields name).isSome := by
  rw [Std.HashMap.contains_eq_isSome_getElem?, h name, Layout.findField, Bool.eq_iff_iff,
    List.findIdx?_isSome, List.find?_isSome, List.any_eq_true]

/-- A field with a new name is put into the index behind the others. -/
theorem concat (h : Indexes fields index) {f : FieldSpec} (hfresh : index[f.name]? = none) :
    Indexes (fields ++ [f]) (index.insert f.name fields.length) := by
  intro name
  rw [Std.HashMap.getElem?_insert, List.findIdx?_append, ← h name]
  by_cases hname : f.name = name
  · subst hname
    simp [hfresh]
  · simp [hname]

/-- An index finds the field that a search of the list finds. -/
theorem lookUp_eq (h : Indexes fields index) (name : String) :
    IndexedLayout.lookUp fields index name = some (Layout.findField fields name) := by
  have hfind : Layout.findField fields name = index[name]?.bind (fields[·]?) := by
    rw [Layout.findField, List.find?_eq_bind_findIdx?_getElem?, h name]
  rw [IndexedLayout.lookUp, hfind]
  cases hplace : index[name]? with
  | none => rfl
  | some position =>
    rw [h name, List.findIdx?_eq_some_iff_getElem] at hplace
    obtain ⟨hposition, -⟩ := hplace
    simp [hposition]

/-- A rule is checked alike against the index and against the list. -/
theorem checkRule_eq (h : Indexes fields index) (f : FieldSpec) :
    IndexedLayout.checkRule fields index f = some (Layout.checkRule fields f) := by
  rw [IndexedLayout.checkRule]
  split
  · rename_i reference htype hrule
    simp only [h.lookUp_eq, Layout.checkRule, htype, Layout.checkVariable, hrule]
    cases Layout.findField fields reference with
    | none => rfl
    | some g => cases hint : g.type.isIntegral <;> simp [hint]
  · rfl

end Indexes

namespace IndexedLayout

/-- Fields are indexed if they pass, and otherwise refused for the same reason. -/
theorem indexFrom_eq {earlier later : List FieldSpec} {index : Std.HashMap String Nat}
    (h : Indexes earlier index) :
    (∀ e, Layout.checkFrom earlier later = .error e → indexFrom earlier index later = some (.error e)) ∧
    (Layout.checkFrom earlier later = .ok () →
      ∃ next, indexFrom earlier index later = some (.ok next) ∧ Indexes (earlier ++ later) next) := by
  induction later generalizing earlier index with
  | nil =>
    constructor
    · intro e h
      cases h
    · intro _
      exact ⟨index, rfl, by rwa [List.append_nil]⟩
  | cons f later ih =>
    rw [Layout.checkFrom, Layout.checkField, indexFrom, h.checkRule_eq]
    cases Layout.checkRule earlier f with
    | error e =>
      constructor
      · intro e' h
        cases h
        rfl
      · intro h
        cases h
    | ok =>
      by_cases hlast : f.rule = .remainder ∧ later ≠ []
      · simp [hlast]
      · have hinsert : index.containsThenInsert f.name earlier.length =
            (index.contains f.name, index.insert f.name earlier.length) :=
          Prod.ext Std.HashMap.containsThenInsert_fst Std.HashMap.containsThenInsert_snd
        simp only [if_neg hlast, hinsert, ← h.contains_eq f.name]
        cases hcontains : index.contains f.name with
        | true => simp
        | false =>
          have hfresh : index[f.name]? = none := by simpa using hcontains
          obtain ⟨herror, hok⟩ := ih (h.concat hfresh)
          rw [List.append_assoc] at hok
          exact ⟨herror, hok⟩

/-- Whether a layout with an index is a layout. -/
structure Represents (s : IndexedLayout) (l : Layout) : Prop where
  key : s.key = l.key
  eventName : s.eventName = l.eventName
  fields : s.fields = l.fields
  index : Indexes l.fields s.index

namespace Represents

variable {s : IndexedLayout} {l : Layout}

theorem position?_eq (h : s.Represents l) (name : String) : s.position? name = l.position? name :=
  h.index name

theorem field?_eq (h : s.Represents l) (name : String) : s.field? name = some (l.field? name) := by
  rw [field?, Layout.field?, h.fields]
  exact h.index.lookUp_eq name

end Represents

/-- Fields make up a layout with an index exactly if they make up a layout, which it is then; otherwise
both are refused for the same reason. -/
theorem ofFields_refines (key : LayoutKey) (fields : List FieldSpec) :
    (∀ e, Layout.ofFields key fields = .error e → ofFields key fields = some (.error e)) ∧
    ∀ l, Layout.ofFields key fields = .ok l →
      ∃ s, ofFields key fields = some (.ok s) ∧ s.Represents l := by
  obtain ⟨herror, hok⟩ := @indexFrom_eq [] fields ∅ .nil
  rw [Layout.ofFields, ofFields]
  split
  · rename_i e hcheck
    refine ⟨?_, nofun⟩
    rintro _ ⟨⟩
    rw [herror e hcheck]
    rfl
  · rename_i hcheck
    obtain ⟨index, hindex, hplaces⟩ := hok hcheck
    refine ⟨nofun, ?_⟩
    rintro _ ⟨⟩
    rw [hindex]
    exact ⟨_, rfl, rfl, rfl, rfl, hplaces⟩

end IndexedLayout

end EventTrace
