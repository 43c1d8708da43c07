import EventTrace.Layout.Builder
import EventTrace.Proofs.Layout.Faults
import EventTrace.Proofs.Layout.Store

/-!
# Manifests are registered one by one

A definition stands for the layout of its fields, of which only bytes must be given a rule
(`FieldDef.Declares`). Loading goes through the definitions with those before as what is registered: one
that has no fault behind them becomes the next layout, and the first that has one (`LayoutDef.Fault`) is
the error. So a manifest is loaded exactly if its definitions are layouts under different keys
(`Manifest.Loadable`), and then has each of them as a builder would make it (`Manifest.load_registers`).
-/

namespace EventTrace

/-! ## Fields -/

namespace FieldDef

/-- Whether a field is declared as it is defined: with the rule that it is given, or else with the width
of its type, or up to a terminator. -/
inductive Declares (d : FieldDef) : FieldSpec → Prop
  | given {rule : LengthRule} (hrule : d.rule = some rule) : Declares d ⟨d.name, d.type, rule⟩
  | width {width : Nat} (hrule : d.rule = none) (htype : d.type.naturalWidth? = some width) :
      Declares d ⟨d.name, d.type, .fixed width⟩
  | terminated (hrule : d.rule = none) (htype : d.type.isString = true) :
      Declares d ⟨d.name, d.type, .nullTerminated⟩

/-- Whether the rule of a field is missing. -/
def LacksRule (d : FieldDef) : Prop := d.type = .rawBytes ∧ d.rule = none

variable {d : FieldDef} {spec : FieldSpec} {e : LayoutError}

theorem toSpec_of_declares (h : d.Declares spec) : d.toSpec = .ok spec := by
  cases h with
  | given hrule => simp only [toSpec, hrule]
  | width hrule htype =>
    have hbytes : d.type ≠ .rawBytes := by
      rintro heq
      rw [heq] at htype
      cases htype
    simp only [toSpec, hrule, if_neg hbytes, FieldSpec.natural, FieldType.naturalRule, htype]
  | terminated hrule htype =>
    have hbytes : d.type ≠ .rawBytes := by
      rintro heq
      rw [heq] at htype
      cases htype
    have hwidth : d.type.naturalWidth? = none := by
      cases ht : d.type with
      | scalar t => simp [ht, FieldType.isString] at htype
      | ansiString | unicodeString | rawBytes => rfl
    simp only [toSpec, hrule, if_neg hbytes, FieldSpec.natural, FieldType.naturalRule, hwidth,
      if_pos htype]

theorem toSpec_of_lacksRule (h : d.LacksRule) : d.toSpec = .error (.missingRule d.name d.type) := by
  simp only [toSpec, h.2, if_pos h.1]

/-- A field stands for one declaration unless its rule is missing. -/
theorem exists_declares (h : ¬d.LacksRule) : ∃ spec, d.Declares spec := by
  cases hrule : d.rule with
  | some rule => exact ⟨_, .given hrule⟩
  | none =>
    cases htype : d.type with
    | scalar t =>
      have hwidth : d.type.naturalWidth? = some t.width := by rw [htype]; rfl
      exact ⟨_, .width hrule hwidth⟩
    | ansiString => exact ⟨_, .terminated hrule (by rw [htype]; rfl)⟩
    | unicodeString => exact ⟨_, .terminated hrule (by rw [htype]; rfl)⟩
    | rawBytes => exact absurd ⟨htype, hrule⟩ h

/-- A definition gives exactly the field that it declares. -/
theorem toSpec_eq_ok_iff : d.toSpec = .ok spec ↔ d.Declares spec := by
  refine ⟨fun h => ?_, toSpec_of_declares⟩
  have hrule : ¬d.LacksRule := fun hlacks => by
    rw [toSpec_of_lacksRule hlacks] at h
    cases h
  obtain ⟨spec', hspec'⟩ := exists_declares hrule
  obtain rfl : spec' = spec := Except.ok.inj ((toSpec_of_declares hspec').symm.trans h)
  exact hspec'

/-- A definition is refused exactly for a rule that is missing. -/
theorem toSpec_eq_error_iff :
    d.toSpec = .error e ↔ d.LacksRule ∧ e = .missingRule d.name d.type := by
  constructor
  · intro h
    by_cases hlacks : d.LacksRule
    · exact ⟨hlacks, Except.error.inj (h.symm.trans (toSpec_of_lacksRule hlacks))⟩
    · obtain ⟨spec, hspec⟩ := exists_declares hlacks
      rw [toSpec_of_declares hspec] at h
      cases h
  · rintro ⟨hlacks, rfl⟩
    exact toSpec_of_lacksRule hlacks

theorem mapM_toSpec_cons (d : FieldDef) (fields : List FieldDef) :
    (d :: fields).mapM toSpec =
      match d.toSpec, fields.mapM toSpec with
      | .error e, _ => .error e
      | .ok _, .error e => .error e
      | .ok spec, .ok specs => .ok (spec :: specs) := by
  rw [List.mapM_cons]
  cases d.toSpec with
  | error e => rfl
  | ok spec => cases fields.mapM toSpec <;> rfl

/-- Definitions give exactly the fields that they declare, in their order. -/
theorem mapM_toSpec_eq_ok_iff {fields : List FieldDef} {specs : List FieldSpec} :
    fields.mapM toSpec = .ok specs ↔ List.Forall₂ Declares fields specs := by
  induction fields generalizing specs with
  | nil => simp [pure, Except.pure, eq_comm]
  | cons d fields ih =>
    rw [mapM_toSpec_cons, List.forall₂_cons_left_iff]
    simp only [← toSpec_eq_ok_iff, ← ih]
    cases d.toSpec with
    | error e => simp
    | ok spec => cases fields.mapM toSpec <;> simp [eq_comm]

/-- The first field whose rule is missing is reported. -/
theorem mapM_toSpec_eq_error_iff {fields : List FieldDef} :
    fields.mapM toSpec = .error e ↔ ∃ before d after, fields = before ++ d :: after ∧
      (∀ d' ∈ before, ¬d'.LacksRule) ∧ d.LacksRule ∧ e = .missingRule d.name d.type := by
  induction fields with
  | nil => simp [pure, Except.pure]
  | cons d fields ih =>
    rw [mapM_toSpec_cons]
    constructor
    · intro h
      cases hd : d.toSpec with
      | error e' =>
        rw [hd] at h
        cases h
        exact ⟨[], d, fields, rfl, by simp, toSpec_eq_error_iff.1 hd⟩
      | ok spec =>
        have hrule : ¬d.LacksRule := fun hlacks => by
          rw [toSpec_of_lacksRule hlacks] at hd
          cases hd
        have herror : fields.mapM toSpec = .error e := by
          cases hfields : fields.mapM toSpec <;> simp [hd, hfields] at h
          rw [h]
        obtain ⟨before, d', after, rfl, hbefore, hd'⟩ := ih.1 herror
        exact ⟨d :: before, d', after, rfl, List.forall_mem_cons.2 ⟨hrule, hbefore⟩, hd'⟩
    · rintro ⟨before, d', after, heq, hbefore, hlacks, rfl⟩
      cases before with
      | nil =>
        cases heq
        rw [toSpec_of_lacksRule hlacks]
      | cons f before =>
        cases heq
        obtain ⟨hrule, hbefore⟩ := List.forall_mem_cons.1 hbefore
        obtain ⟨spec, hspec⟩ := exists_declares hrule
        rw [toSpec_of_declares hspec, ih.2 ⟨before, d', after, rfl, hbefore, hlacks, rfl⟩]

/-- No definition that declares a field lacks a rule. -/
theorem not_lacksRule_of_declares {fields : List FieldDef} {specs : List FieldSpec}
    (h : List.Forall₂ Declares fields specs) : ∀ d ∈ fields, ¬d.LacksRule := by
  have hboth : List.Forall₂ (fun d spec => ¬d.LacksRule ∧ Declares d spec) fields specs := by
    refine h.imp fun d spec hspec => ⟨fun hlacks => ?_, hspec⟩
    have herror := (toSpec_of_declares hspec).symm.trans (toSpec_of_lacksRule hlacks)
    cases herror
  exact ((List.forall₂_and_left _ _).1 hboth).1

end FieldDef

/-! ## Layouts -/

namespace LayoutDef

/-- Whether a layout is what a definition says: its fields as they are defined, in their order, under
its key and with its name. -/
structure Describes (d : LayoutDef) (l : Layout) : Prop where
  key : l.key = d.key
  eventName : l.eventName = d.name
  fields : List.Forall₂ FieldDef.Declares d.fields l.fields

/-- Whether a definition stands for a layout: no rule is missing, and the fields with their rules are
one. -/
structure Sound (d : LayoutDef) : Prop where
  ruled : ∀ f ∈ d.fields, f.type = .rawBytes → f.rule ≠ none
  accepted : ∀ specs, List.Forall₂ FieldDef.Declares d.fields specs →
    ∃ l, Layout.ofFields d.key specs = .ok l

/-- The first fault of a definition behind other ones: a rule is missing, or else its fields are no
layout, or else its key was taken before. -/
inductive Fault (d : LayoutDef) (earlier : List LayoutDef) : LayoutError → Prop
  | missing {before after : List FieldDef} {f : FieldDef} (hfields : d.fields = before ++ f :: after)
      (hbefore : ∀ g ∈ before, ¬g.LacksRule) (hf : f.LacksRule) :
      Fault d earlier (.missingRule f.name f.type)
  | invalid {specs : List FieldSpec} {e : LayoutError}
      (hspecs : List.Forall₂ FieldDef.Declares d.fields specs)
      (h : Layout.ofFields d.key specs = .error e) : Fault d earlier e
  | repeated (hsound : d.Sound) (hkey : d.key ∈ earlier.map LayoutDef.key) :
      Fault d earlier (.alreadyRegistered d.key)

variable {d : LayoutDef} {l : Layout} {e : LayoutError} {specs : List FieldSpec}

theorem toLayout_of_declares (h : List.Forall₂ FieldDef.Declares d.fields specs) :
    d.toLayout = (Layout.ofFields d.key specs).map (·.withName d.name) := by
  rw [toLayout, FieldDef.mapM_toSpec_eq_ok_iff.2 h]
  cases hl : Layout.ofFields d.key specs <;> simp [hl, bind, Except.bind, Except.map]

theorem toLayout_of_mapM_eq_error (h : d.fields.mapM FieldDef.toSpec = .error e) :
    d.toLayout = .error e := by
  rw [toLayout, h]
  rfl

/-- Every definition that was loaded describes a layout. -/
theorem exists_describes {defs : List LayoutDef} {layouts : List Layout}
    (h : List.Forall₂ Describes defs layouts) (hd : d ∈ defs) : ∃ l ∈ layouts, d.Describes l := by
  induction h with
  | nil => cases hd
  | cons hfirst _ ih =>
    rcases List.mem_cons.1 hd with rfl | hrest
    · exact ⟨_, List.mem_cons_self, hfirst⟩
    · obtain ⟨l, hl, hdescribes⟩ := ih hrest
      exact ⟨l, List.mem_cons_of_mem _ hl, hdescribes⟩

/-- A definition that stands for a layout becomes one as it is described. -/
theorem Sound.exists_toLayout (h : d.Sound) : ∃ l, d.toLayout = .ok l ∧ d.Describes l := by
  cases hfields : d.fields.mapM FieldDef.toSpec with
  | ok specs =>
    have hspecs := FieldDef.mapM_toSpec_eq_ok_iff.1 hfields
    obtain ⟨l, hl⟩ := h.accepted specs hspecs
    have hkey : l.key = d.key := Layout.key_of_ofFields hl
    refine ⟨l.withName d.name, ?_, hkey, rfl, ?_⟩
    · rw [toLayout_of_declares hspecs, hl]
      rfl
    · rw [Layout.fields_withName, Layout.fields_of_ofFields hl]
      exact hspecs
  | error e =>
    obtain ⟨before, f, after, hsplit, -, ⟨htype, hrule⟩, -⟩ :=
      FieldDef.mapM_toSpec_eq_error_iff.1 hfields
    exact absurd hrule (h.ruled f (by simp [hsplit]) htype)

/-- A definition that stands for no layout has a fault, whatever is before it. -/
theorem exists_fault_of_not_sound (h : ¬d.Sound) :
    ∃ e, d.toLayout = .error e ∧ ∀ earlier, d.Fault earlier e := by
  cases hfields : d.fields.mapM FieldDef.toSpec with
  | error e =>
    obtain ⟨before, f, after, hsplit, hbefore, hf, rfl⟩ := FieldDef.mapM_toSpec_eq_error_iff.1 hfields
    exact ⟨_, toLayout_of_mapM_eq_error hfields, fun _ => .missing hsplit hbefore hf⟩
  | ok specs =>
    have hspecs := FieldDef.mapM_toSpec_eq_ok_iff.1 hfields
    cases hl : Layout.ofFields d.key specs with
    | error e => exact ⟨e, by rw [toLayout_of_declares hspecs, hl]; rfl, fun _ => .invalid hspecs hl⟩
    | ok l =>
      refine absurd ⟨fun f hf htype hrule => ?_, fun specs' hspecs' => ?_⟩ h
      · exact FieldDef.not_lacksRule_of_declares hspecs f hf ⟨htype, hrule⟩
      · have heq := (FieldDef.mapM_toSpec_eq_ok_iff.2 hspecs').symm.trans hfields
        obtain rfl : specs' = specs := Except.ok.inj heq
        exact ⟨l, hl⟩

/-- A fault is one of the definition alone, or is that its key was taken. -/
theorem Fault.cases {earlier : List LayoutDef} (h : d.Fault earlier e) :
    d.toLayout = .error e ∨
      d.Sound ∧ d.key ∈ earlier.map LayoutDef.key ∧ e = .alreadyRegistered d.key := by
  cases h with
  | missing hfields hbefore hf =>
    exact .inl (toLayout_of_mapM_eq_error
      (FieldDef.mapM_toSpec_eq_error_iff.2 ⟨_, _, _, hfields, hbefore, hf, rfl⟩))
  | invalid hspecs herror =>
    rw [toLayout_of_declares hspecs, herror]
    exact .inl rfl
  | repeated hsound hkey => exact .inr ⟨hsound, hkey, rfl⟩

end LayoutDef

/-! ## Builders -/

namespace LayoutBuilder

def fieldsWith (b : LayoutBuilder) (fields : List FieldSpec) : LayoutBuilder :=
  fields.foldl (fun b f => b.fieldWith f.name f.type f.rule) b

/-- Declares a field as it is defined: with the rule that it is given, if it is given one. -/
def define (b : LayoutBuilder) (d : FieldDef) : LayoutBuilder :=
  match d.rule with
  | some rule => b.fieldWith d.name d.type rule
  | none => b.field d.name d.type

/-- Gives the event the name that it has, if it has one. -/
def perhapsNamed (b : LayoutBuilder) : Option String → LayoutBuilder
  | some name => b.named name
  | none => b

variable {b : LayoutBuilder} {d : FieldDef} {spec : FieldSpec}

theorem fieldsWith_eq (b : LayoutBuilder) (fields : List FieldSpec) :
    b.fieldsWith fields = { b with fields := b.fields ++ fields } := by
  induction fields generalizing b with
  | nil => rw [List.append_nil]; rfl
  | cons f fields ih =>
    rw [fieldsWith, List.foldl_cons, ← fieldsWith, ih]
    simp only [fieldWith, List.append_assoc, List.singleton_append]

/-- What a builder takes for the rule of a field is what its definition stands for. -/
theorem define_of_declares (h : d.Declares spec) : b.define d = b.fieldsWith [spec] := by
  have hspec := FieldDef.toSpec_of_declares h
  rw [FieldDef.toSpec] at hspec
  rw [define]
  cases hrule : d.rule with
  | some rule =>
    rw [hrule] at hspec
    cases hspec
    rfl
  | none =>
    rw [hrule] at hspec
    by_cases htype : d.type = .rawBytes
    · simp [htype] at hspec
    · simp only [if_neg htype, Except.ok.injEq] at hspec
      rw [← hspec]
      rfl

/-- Defining fields one by one gives those that the definitions declare. -/
theorem foldl_define_of_declares {defs : List FieldDef} {specs : List FieldSpec}
    (h : List.Forall₂ FieldDef.Declares defs specs) : defs.foldl define b = b.fieldsWith specs := by
  induction h generalizing b with
  | nil => rfl
  | cons hspec _ ih =>
    rw [List.foldl_cons, ih, define_of_declares hspec]
    rfl

/-- A layout is built from its own fields and name. -/
theorem build_layout (l : Layout) :
    (((⟨l.key, none, []⟩ : LayoutBuilder).fieldsWith l.fields).perhapsNamed l.eventName).build = .ok l := by
  obtain ⟨key, eventName, fields, checked⟩ := l
  rw [fieldsWith_eq, List.nil_append]
  have hfields : Layout.ofFields key fields = .ok ⟨key, none, fields, checked⟩ := by
    rw [Layout.ofFields]
    split
    · rename_i e herror
      rw [checked] at herror
      cases herror
    · rfl
  cases eventName with
  | none => simp only [perhapsNamed, build, hfields]; rfl
  | some name => simp only [perhapsNamed, named, build, hfields]; rfl

end LayoutBuilder

/-! ## Manifests -/

namespace Manifest

/-- Whether definitions are layouts under different keys. -/
structure Loadable (defs : List LayoutDef) : Prop where
  sound : ∀ d ∈ defs, d.Sound
  distinct : (defs.map LayoutDef.key).Nodup

/-- Whether a registry has what definitions say, and nothing else. -/
structure Loaded (defs : List LayoutDef) (r : Registry) : Prop where
  describes : List.Forall₂ LayoutDef.Describes defs r.entries
  loadable : Loadable defs

variable {defs earlier rest : List LayoutDef} {d : LayoutDef} {r r' : Registry} {e : LayoutError}

/-- A registry that was loaded has the keys of the definitions, in their order. -/
theorem Loaded.keys_eq (h : Loaded defs r) : r.keys = defs.map LayoutDef.key := by
  obtain ⟨layouts⟩ := r
  have hlayouts : List.Forall₂ LayoutDef.Describes defs layouts := h.describes
  rw [Registry.keys]
  clear h
  induction hlayouts with
  | nil => rfl
  | cons hd _ ih => rw [List.map_cons, List.map_cons, hd.key, ih]

/-- Definitions with one more behind them can be loaded exactly if they can be, and that one is sound and
its key is new. -/
theorem loadable_append_singleton_iff :
    Loadable (earlier ++ [d]) ↔
      Loadable earlier ∧ d.Sound ∧ d.key ∉ earlier.map LayoutDef.key := by
  constructor
  · rintro ⟨hsound, hdistinct⟩
    rw [List.forall_mem_append, List.forall_mem_singleton] at hsound
    rw [List.map_append, List.map_singleton, List.nodup_append_comm, List.singleton_append,
      List.nodup_cons] at hdistinct
    exact ⟨⟨hsound.1, hdistinct.2⟩, hsound.2, hdistinct.1⟩
  · rintro ⟨⟨hsound, hdistinct⟩, hd, hkey⟩
    refine ⟨List.forall_mem_append.2 ⟨hsound, List.forall_mem_singleton.2 hd⟩, ?_⟩
    rw [List.map_append, List.map_singleton, List.nodup_append_comm, List.singleton_append,
      List.nodup_cons]
    exact ⟨hkey, hdistinct⟩

theorem Loadable.of_append (h : Loadable (earlier ++ rest)) : Loadable earlier :=
  ⟨(List.forall_mem_append.1 h.sound).1, (List.map_append ▸ h.distinct).of_append_left⟩

/-- What is registered counts as the first of its key, since keys are different. -/
theorem Loaded.registered (h : Loaded defs r) : Registered r.entries r.find? r.keys :=
  ⟨fun _ => rfl, h.keys_eq ▸ h.loadable.distinct, fun _ => Iff.rfl⟩

theorem register_of_loaded (h : Loaded earlier r) {l : Layout} (hd : d.Describes l) :
    r.register l =
      if d.key ∈ earlier.map LayoutDef.key then .error (.alreadyRegistered d.key)
      else .ok ⟨r.entries ++ [l]⟩ := by
  have hkeys : r.entries.map Layout.key = earlier.map LayoutDef.key := h.keys_eq
  rw [Registry.register_eq h.registered, hkeys, hd.key]

/-- A fault of a definition stops its registration. -/
theorem bind_register_of_fault (h : Loaded earlier r) (hfault : d.Fault earlier e) :
    d.toLayout.bind r.register = .error e := by
  rcases hfault.cases with herror | ⟨hsound, hkey, rfl⟩
  · rw [herror]
    rfl
  · obtain ⟨l, hl, hd⟩ := hsound.exists_toLayout
    rw [hl]
    exact (register_of_loaded h hd).trans (if_pos hkey)

/-- A definition is registered behind others, or it has a fault. -/
theorem register_cases (h : Loaded earlier r) (d : LayoutDef) :
    (∃ l, d.toLayout.bind r.register = .ok ⟨r.entries ++ [l]⟩ ∧
        Loaded (earlier ++ [d]) ⟨r.entries ++ [l]⟩) ∨
      (∃ e, d.Fault earlier e) ∧ ¬Loadable (earlier ++ [d]) := by
  rw [loadable_append_singleton_iff]
  by_cases hsound : d.Sound
  · by_cases hkey : d.key ∈ earlier.map LayoutDef.key
    · exact .inr ⟨⟨_, .repeated hsound hkey⟩, fun hload => hload.2.2 hkey⟩
    · obtain ⟨l, hl, hd⟩ := hsound.exists_toLayout
      refine .inl ⟨l, ?_, List.rel_append h.describes (.cons hd .nil),
        loadable_append_singleton_iff.2 ⟨h.loadable, hsound, hkey⟩⟩
      rw [hl]
      exact (register_of_loaded h hd).trans (if_neg hkey)
  · obtain ⟨e, -, hfault⟩ := LayoutDef.exists_fault_of_not_sound hsound
    exact .inr ⟨⟨e, hfault earlier⟩, fun hload => hsound hload.2.1⟩

/-- Whether the first definition with a fault behind some others is reported by an error. -/
def FirstFault (earlier defs : List LayoutDef) (e : LayoutError) : Prop :=
  ∃ before d after, defs = before ++ d :: after ∧ Loadable (earlier ++ before) ∧
    d.Fault (earlier ++ before) e

/-- The first definition has a fault, or it has none and leaves it to those behind it. -/
theorem firstFault_cons_iff (h : Loadable earlier) :
    FirstFault earlier (d :: rest) e ↔
      d.Fault earlier e ∨ Loadable (earlier ++ [d]) ∧ FirstFault (earlier ++ [d]) rest e := by
  constructor
  · rintro ⟨before, d', after, heq, hload, hfault⟩
    cases before with
    | nil =>
      cases heq
      exact .inl (by simpa using hfault)
    | cons f before =>
      cases heq
      rw [List.append_cons] at hload hfault
      exact .inr ⟨hload.of_append, before, d', after, rfl, hload, hfault⟩
  · rintro (hfault | ⟨-, before, d', after, rfl, hload, hfault⟩)
    · exact ⟨[], d, rest, rfl, by simpa using h, by simpa using hfault⟩
    · rw [← List.append_cons] at hload hfault
      exact ⟨d :: before, d', after, rfl, hload, hfault⟩

/-- Definitions behind others are registered too, or the first fault of one of them is reported. -/
theorem loadInto_cases (h : Loaded earlier r) (defs : List LayoutDef) :
    (∃ r', loadInto r defs = (r', none) ∧ Loaded (earlier ++ defs) r' ∧
        ∀ e, ¬FirstFault earlier defs e) ∨
      ∃ r' e, loadInto r defs = (r', some e) ∧ ¬Loadable (earlier ++ defs) ∧
        ∀ e', FirstFault earlier defs e' ↔ e' = e := by
  induction defs generalizing earlier r with
  | nil =>
    refine .inl ⟨r, rfl, (List.append_nil earlier).symm ▸ h, ?_⟩
    rintro e ⟨before, d, after, heq, -⟩
    simp at heq
  | cons d rest ih =>
    rw [List.append_cons, loadInto]
    simp only [firstFault_cons_iff h.loadable]
    rcases register_cases h d with ⟨l, hl, hnext⟩ | ⟨⟨e, hfault⟩, hload⟩
    · have hnone : ∀ e, ¬d.Fault earlier e := fun e hfault => by
        have herror := hl.symm.trans (bind_register_of_fault h hfault)
        cases herror
      simpa only [hl, hnone, hnext.loadable, false_or, true_and] using ih hnext
    · refine .inr ⟨r, e, ?_, fun hall => hload hall.of_append, fun e' => ?_⟩
      · rw [bind_register_of_fault h hfault]
      · have herror := bind_register_of_fault h hfault
        constructor
        · rintro (hfault' | ⟨hload', -⟩)
          · exact Except.error.inj ((bind_register_of_fault h hfault').symm.trans herror)
          · exact absurd hload' hload
        · rintro rfl
          exact .inl hfault

end Manifest

/-! ## Hash maps -/

namespace LayoutStore

variable {s : LayoutStore} {r : Registry}

theorem run_ofExcept {α : Type} (s : LayoutStore) (x : Except LayoutError α) :
    (MonadExcept.ofExcept x : Changes α).run s =
      match x with
      | .error e => .error e s
      | .ok a => .ok a s := by
  cases x <;> rfl

/-- Definitions are loaded into a hash map as they are into a list, up to the first that fails. -/
theorem run_load (hr : r.keys.Nodup) (hs : Registered r.entries (s.layouts[·]?) s.layouts.keys)
    (defs : List LayoutDef) :
    ∃ s', Registered (Manifest.loadInto r defs).1.entries (s'.layouts[·]?) s'.layouts.keys ∧
      (load defs).run s =
        match (Manifest.loadInto r defs).2 with
        | none => .ok () s'
        | some e => .error e s' := by
  have hlist : Registered r.entries r.find? r.keys := ⟨fun _ => rfl, hr, fun _ => Iff.rfl⟩
  induction defs generalizing r s with
  | nil => exact ⟨s, hs, rfl⟩
  | cons d rest ih =>
    simp only [load, Manifest.loadInto, EStateM.run_bind, run_ofExcept]
    cases hl : d.toLayout with
    | error e => exact ⟨s, hs, rfl⟩
    | ok l =>
      simp only [Except.bind, Registry.register_eq hlist, run_register_eq hs]
      by_cases hkey : l.key ∈ r.entries.map Layout.key
      · simp only [if_pos hkey]
        exact ⟨s, hs, rfl⟩
      · simp only [if_neg hkey]
        have hnext := Registry.registered_append hlist hkey
        exact ih hnext.nodup (registered_insert hs hkey) hnext

end LayoutStore

/-! ## Loading -/

namespace Manifest

variable {m : Manifest} {r : Registry}

/-- A manifest is loaded, with what its definitions say, or its first fault is reported. -/
theorem load_cases (m : Manifest) :
    (∃ r, m.load = .ok r ∧ loadInto .empty m.layouts = (r, none) ∧ Loaded m.layouts r ∧
        ∀ e, ¬FirstFault [] m.layouts e) ∨
      ∃ r e, m.load = .error e ∧ loadInto .empty m.layouts = (r, some e) ∧ ¬Loadable m.layouts ∧
        ∀ e', FirstFault [] m.layouts e' ↔ e' = e := by
  have hempty : Loaded [] .empty := ⟨.nil, by simp, .nil⟩
  rcases loadInto_cases hempty m.layouts with ⟨r, hr, hloaded, hnone⟩ | ⟨r, e, hr, hload, hfirst⟩
  · exact .inl ⟨r, by rw [load, loadAll, hr], hr, hloaded, hnone⟩
  · exact .inr ⟨r, e, by rw [load, loadAll, hr], hr, hload, hfirst⟩

/-- Every definition is found under its key. -/
theorem Loaded.exists_resolve {defs : List LayoutDef} {d : LayoutDef} (h : Loaded defs r)
    (hd : d ∈ defs) : ∃ l, r.resolve d.key = .ok l ∧ d.Describes l := by
  obtain ⟨l, hl, hdescribes⟩ := LayoutDef.exists_describes h.describes hd
  have hfirst := isFirst_of_mem h.registered.nodup hl
  rw [hdescribes.key] at hfirst
  exact ⟨l, by rw [Registry.resolve, h.registered.find_eq_some_iff.2 hfirst], hdescribes⟩

/-- Only the keys of definitions are found. -/
theorem Loaded.resolve_of_not_mem {defs : List LayoutDef} {key : LayoutKey} (h : Loaded defs r)
    (hkey : key ∉ defs.map LayoutDef.key) : r.resolve key = .error (.notFound key) := by
  have hkeys : r.entries.map Layout.key = defs.map LayoutDef.key := h.keys_eq
  rw [Registry.resolve, h.registered.find_eq_none_iff.2 (hkeys ▸ hkey)]

/-- A hash map that the definitions are registered into one by one has what is loaded, or fails as
loading does. -/
theorem run_load_of_load (m : Manifest) :
    (∀ r, m.load = .ok r → ∃ s, (LayoutStore.load m.layouts).run .empty = .ok () s ∧
      Registered r.entries (s.layouts[·]?) s.layouts.keys) ∧
    ∀ e, m.load = .error e → ∃ s, (LayoutStore.load m.layouts).run .empty = .error e s := by
  obtain ⟨s, hs, hrun⟩ :=
    LayoutStore.run_load (r := .empty) .nil LayoutStore.registered_empty m.layouts
  rcases m.load_cases with ⟨r, hload, hr, -⟩ | ⟨r, e, hload, hr, -⟩
  · rw [hr] at hs hrun
    rw [hload]
    refine ⟨?_, by simp⟩
    rintro _ ⟨⟩
    exact ⟨s, hrun, hs⟩
  · rw [hr] at hrun
    rw [hload]
    refine ⟨by simp, ?_⟩
    rintro _ ⟨⟩
    exact ⟨s, hrun⟩

/-- A manifest is loaded exactly if its definitions are layouts under different keys. What is loaded then
are these keys, each of them with the layout that its definition says and that a builder makes of the
same rules, and no other; a hash map that the definitions are registered into one by one answers alike.
Otherwise the first definition with a fault is reported, which also stops the hash map. -/
theorem load_registers (m : Manifest) :
    ((∃ r, m.load = .ok r) ↔ Loadable m.layouts) ∧
    (∀ r, m.load = .ok r →
      r.keys.Nodup ∧ (∀ key, key ∈ r.keys ↔ key ∈ m.layouts.map LayoutDef.key) ∧
      r.size = m.layouts.length ∧
      (∀ d ∈ m.layouts, ∃ l, r.resolve d.key = .ok l ∧ d.Describes l ∧
        (((⟨d.key, none, []⟩ : LayoutBuilder).fieldsWith l.fields).perhapsNamed d.name).build = .ok l ∧
        ((d.fields.foldl .define (⟨d.key, none, []⟩ : LayoutBuilder)).perhapsNamed d.name).build =
          .ok l) ∧
      (∀ key, key ∉ m.layouts.map LayoutDef.key → r.resolve key = .error (.notFound key)) ∧
      ∃ s, (LayoutStore.load m.layouts).run .empty = .ok () s ∧
        ∀ c, Answers r.entries c (s.call c).2 ∧ Answers r.entries c (r.call c).2) ∧
    ∀ e, (m.load = .error e ↔
        ∃ before d after, m.layouts = before ++ d :: after ∧ Loadable before ∧ d.Fault before e) ∧
      (m.load = .error e → ∃ s, (LayoutStore.load m.layouts).run .empty = .error e s) := by
  obtain ⟨hstore, hstops⟩ := m.run_load_of_load
  have hfirst : ∀ e, FirstFault [] m.layouts e ↔
      ∃ before d after, m.layouts = before ++ d :: after ∧ Loadable before ∧ d.Fault before e :=
    fun e => by simp only [FirstFault, List.nil_append]
  rcases m.load_cases with ⟨r, hload, -, hloaded, hnone⟩ | ⟨r, e, hload, -, hnot, herror⟩
  · refine ⟨iff_of_true ⟨r, hload⟩ hloaded.loadable, fun r' hr' => ?_, fun e => ⟨?_, hstops e⟩⟩
    · obtain rfl : r = r' := Except.ok.inj (hload.symm.trans hr')
      obtain ⟨s, hrun, hs⟩ := hstore r hload
      refine ⟨hloaded.registered.nodup, fun key => by rw [hloaded.keys_eq], ?_, fun d hd => ?_,
        fun key => hloaded.resolve_of_not_mem, s, hrun, fun c =>
        ⟨(LayoutStore.call_cases hs c).1, (Registry.call_cases hloaded.registered c).1⟩⟩
      · exact hloaded.describes.length_eq.symm
      · obtain ⟨l, hl, hd⟩ := hloaded.exists_resolve hd
        have hbuild := LayoutBuilder.build_layout l
        rw [hd.key, hd.eventName] at hbuild
        refine ⟨l, hl, hd, hbuild, ?_⟩
        rw [LayoutBuilder.foldl_define_of_declares hd.fields, hbuild]
    · rw [← hfirst, hload]
      exact iff_of_false (by simp) (hnone e)
  · refine ⟨iff_of_false (by simp [hload]) hnot, by simp [hload], fun e' => ⟨?_, hstops e'⟩⟩
    rw [← hfirst, herror, hload, Except.error.injEq, eq_comm]

/-- Two versions of an event: a number and a text without rules, and bytes up to the end. -/
def versions : List LayoutDef :=
  [⟨⟨7, 0⟩, some "Started", [⟨"id", .scalar (.word .uint32), none⟩, ⟨"name", .unicodeString, none⟩]⟩,
    ⟨⟨7, 1⟩, none, [⟨"rest", .rawBytes, some .remainder⟩]⟩]

/-- A third definition that lacks a rule and has a key that was taken. -/
def unruled : LayoutDef := ⟨⟨7, 0⟩, none, [⟨"data", .rawBytes, none⟩]⟩

/-- Both versions are loaded; of the two faults of another definition the missing rule is reported. -/
theorem load_registers_versions :
    (∃ r, (Manifest.mk versions).load = .ok r ∧ r.size = 2 ∧
      r.resolve ⟨7, 2⟩ = .error (.notFound ⟨7, 2⟩)) ∧
    (Manifest.mk (versions ++ [unruled])).load = .error (.missingRule "data" .rawBytes) := by
  obtain ⟨hloads, hloaded, -⟩ := load_registers ⟨versions⟩
  obtain ⟨-, -, herror⟩ := load_registers ⟨versions ++ [unruled]⟩
  have hok : (Manifest.load ⟨versions⟩).isOk = true := by decide
  obtain ⟨r, hr⟩ : ∃ r, Manifest.load ⟨versions⟩ = .ok r := by
    cases h : Manifest.load ⟨versions⟩ with
    | ok r => exact ⟨r, rfl⟩
    | error e => simp [h, Except.isOk, Except.toBool] at hok
  obtain ⟨-, -, hsize, -, hmissing, -⟩ := hloaded r hr
  refine ⟨⟨r, hr, hsize, hmissing _ (by decide)⟩, (herror _).1.2 ?_⟩
  have hfields : unruled.fields = [] ++ (⟨"data", .rawBytes, none⟩ : FieldDef) :: [] := rfl
  have hfault : unruled.Fault versions (.missingRule "data" .rawBytes) :=
    .missing hfields (List.forall_mem_nil _) ⟨rfl, rfl⟩
  exact ⟨versions, unruled, [], rfl, hloads.1 ⟨r, hr⟩, hfault⟩

end Manifest

end EventTrace
