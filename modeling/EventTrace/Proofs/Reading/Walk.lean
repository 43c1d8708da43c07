import EventTrace.Proofs.Reading.Locate
import EventTrace.Reading.Reader
import Mathlib.Data.List.Induction
import Mathlib.Data.List.TakeWhile

/-!
# Walks and the grammar

A walk through the first fields of a layout gets to its end exactly if the data begins with parts that
conform to them, and it finds nothing but these parts (`walk_of_decomposes`, `exists_traces`). There is
one way only to take data apart (`Decomposes.unique`), so a reader that locates a field says where its
part lies (`FieldReader.resolve_iff_reads`).
-/

namespace EventTrace

variable [Codecs] {settings : Settings} {data rest rest' : Bytes} {parts parts' : List Part}
  {specs later : List FieldSpec} {spec : FieldSpec}

/-! ## Walks in steps -/

/-- A walk goes on behind the first fields unless it stopped there. -/
theorem walkFrom_append (settings : Settings) (data : Bytes) (earlier : List Located)
    (specs specs' : List FieldSpec) :
    walkFrom settings data earlier (specs ++ specs') =
      match walkFrom settings data earlier specs with
      | ⟨located, none⟩ => walkFrom settings data located specs'
      | ⟨located, some e⟩ => ⟨located, some e⟩ := by
  induction specs generalizing earlier with
  | nil => rfl
  | cons spec specs ih =>
    rw [List.cons_append, walkFrom, walkFrom]
    cases EventTrace.locate settings data earlier spec with
    | error e => rfl
    | ok s => exact ih _

/-- Where a walk got through, one more declaration is located behind what was found. -/
theorem walk_append_singleton {located : List Located}
    (h : walk settings data specs = ⟨located, none⟩) (spec : FieldSpec) :
    walk settings data (specs ++ [spec]) =
      match locate settings data located spec with
      | .error e => ⟨located, some e⟩
      | .ok s => ⟨located ++ [⟨spec, s⟩], none⟩ := by
  rw [walk] at h
  rw [walk, walkFrom_append, h]
  rfl

/-! ## From parts to walks -/

/-- Parts that conform to fields are found by a walk through the fields. -/
theorem walk_of_decomposes (hd : Decomposes settings.strict data parts rest)
    (hwf : Layout.WellFormed (parts.map Part.spec ++ later)) :
    walk settings data (parts.map Part.spec) = ⟨locatedOf parts, none⟩ := by
  induction parts using List.reverseRecOn generalizing rest later with
  | nil => rfl
  | append_singleton parts p ih =>
    obtain ⟨hparts, hp⟩ := Decomposes.append_singleton_iff.1 hd
    rw [List.map_append, List.map_singleton, List.append_assoc, List.singleton_append] at hwf
    have hlocate := (locate_eq_ok_iff hparts hwf).2 ⟨p, rest, rfl, rfl, rfl, hp⟩
    rw [List.map_append, List.map_singleton, walk_append_singleton (ih hparts hwf), hlocate,
      locatedOf_append_singleton]

/-- There is one way only to take data apart into parts of the first fields of a layout. -/
theorem Decomposes.unique {strict : Bool} (hd : Decomposes strict data parts rest)
    (hd' : Decomposes strict data parts' rest') (hspecs : parts.map Part.spec = parts'.map Part.spec)
    (hwf : Layout.WellFormed (parts.map Part.spec ++ later)) : parts = parts' ∧ rest = rest' := by
  have hwalk : walk { strict } data (parts.map Part.spec) = ⟨locatedOf parts, none⟩ :=
    walk_of_decomposes hd hwf
  have hwalk' : walk { strict } data (parts'.map Part.spec) = ⟨locatedOf parts', none⟩ :=
    walk_of_decomposes hd' (hspecs ▸ hwf)
  rw [hspecs, hwalk', Walk.mk.injEq] at hwalk
  exact eq_of_locatedFrom_eq (hd.eq.symm.trans hd'.eq) hwalk.1.symm

/-! ## From walks to parts -/

/-- Whether a walk through declarations found parts of the data, all that there are for them or those
up to a declaration that no part is found for. -/
structure Traces (settings : Settings) (data : Bytes) (specs : List FieldSpec) (w : Walk)
    (parts : List Part) (rest : Bytes) : Prop where
  decomposes : Decomposes settings.strict data parts rest
  located : w.located = locatedOf parts
  complete : w.failure = none → parts.map Part.spec = specs
  stopped : ∀ e, w.failure = some e → ∃ spec later, specs = parts.map Part.spec ++ spec :: later ∧
    locate settings data (locatedOf parts) spec = .error e

theorem Traces.exists_later {w : Walk} (h : Traces settings data specs w parts rest) :
    ∃ later, specs = parts.map Part.spec ++ later := by
  cases hf : w.failure with
  | none => exact ⟨[], by rw [h.complete hf, List.append_nil]⟩
  | some e =>
    obtain ⟨spec, later, hspecs, -⟩ := h.stopped e hf
    exact ⟨spec :: later, hspecs⟩

/-- A walk through the first fields of a layout finds parts of the data. -/
theorem exists_traces (settings : Settings) (data : Bytes) {specs later : List FieldSpec}
    (hwf : Layout.WellFormed (specs ++ later)) :
    ∃ parts rest, Traces settings data specs (walk settings data specs) parts rest := by
  induction specs using List.reverseRecOn generalizing later with
  | nil => exact ⟨[], data, .nil _ _, rfl, fun _ => rfl, by simp [walk, walkFrom]⟩
  | append_singleton specs spec ih =>
    rw [List.append_assoc, List.singleton_append] at hwf
    obtain ⟨parts, rest, h⟩ := ih hwf
    obtain ⟨located, failure, hwalk⟩ : ∃ located failure,
        walk settings data specs = ⟨located, failure⟩ := ⟨_, _, rfl⟩
    rw [hwalk] at h
    obtain rfl : located = locatedOf parts := h.located
    cases failure with
    | some e =>
      have hwalk' : walk settings data (specs ++ [spec]) = ⟨locatedOf parts, some e⟩ := by
        rw [walk] at hwalk
        rw [walk, walkFrom_append, hwalk]
      refine ⟨parts, rest, h.decomposes, by rw [hwalk'], by simp [hwalk'], fun e' he => ?_⟩
      rw [hwalk', Option.some.injEq] at he
      subst he
      obtain ⟨spec', later', hspecs, hlocate⟩ := h.stopped e rfl
      exact ⟨spec', later' ++ [spec], by simp [hspecs], hlocate⟩
    | none =>
      have hspecs := h.complete rfl
      have hwalk' := walk_append_singleton hwalk spec
      cases hlocate : locate settings data (locatedOf parts) spec with
      | error e =>
        rw [hlocate] at hwalk'
        refine ⟨parts, rest, h.decomposes, by rw [hwalk'], by simp [hwalk'], fun e' he => ?_⟩
        rw [hwalk', Option.some.injEq] at he
        exact ⟨spec, [], by rw [hspecs], by rw [hlocate, he]⟩
      | ok s =>
        rw [hlocate] at hwalk'
        obtain ⟨p, rest', rfl, rfl, rfl, hp⟩ :=
          (locate_eq_ok_iff h.decomposes (hspecs.symm ▸ hwf)).1 hlocate
        refine ⟨parts ++ [p], rest', Decomposes.append_singleton_iff.2 ⟨h.decomposes, hp⟩, ?_, ?_,
          by simp [hwalk']⟩
        · rw [hwalk', locatedOf_append_singleton]
        · exact fun _ => by rw [List.map_append, hspecs, List.map_singleton]

/-! ## Declarations of a layout -/

omit [Codecs] in
/-- A layout splits at the first field of a name. -/
theorem Layout.upTo?_eq_some_iff {l : Layout} {name : String} {before : List FieldSpec} :
    l.upTo? name = some (before, spec) ↔
      spec.name = name ∧ ∃ later, l.fields = before ++ spec :: later := by
  constructor
  · intro h
    have hsplit := List.takeWhile_append_dropWhile (p := fun f => f.name ≠ name) (l := l.fields)
    cases hdrop : l.fields.dropWhile (·.name ≠ name) with
    | nil => simp only [upTo?, hdrop, reduceCtorEq] at h
    | cons f later =>
      simp only [upTo?, hdrop, Option.some.injEq, Prod.mk.injEq] at h
      obtain ⟨rfl, rfl⟩ := h
      have hname := List.head?_dropWhile_not (fun f => decide (f.name ≠ name)) l.fields
      rw [hdrop] at hname
      exact ⟨by simpa using hname, later, by rw [← hdrop]; exact hsplit.symm⟩
  · rintro ⟨rfl, later, hfields⟩
    have hdistinct := l.wellFormed.distinct
    rw [hfields, List.map_append, List.nodup_append] at hdistinct
    have hbefore : ∀ f ∈ before, decide (f.name ≠ spec.name) = true := fun f hf => by
      simpa using hdistinct.2.2 f.name (List.mem_map_of_mem hf) spec.name (by simp)
    rw [upTo?, hfields, List.dropWhile_append_of_pos hbefore, List.takeWhile_append_of_pos hbefore]
    simp

omit [Codecs] in
/-- The position of a name is the number of declarations before its own. -/
theorem Layout.position?_eq (l : Layout) (name : String) :
    l.position? name = (l.upTo? name).map fun d => d.1.length := by
  cases h : l.upTo? name with
  | none =>
    rw [Option.map_none, position?, List.findIdx?_eq_none_iff]
    rw [upTo?] at h
    split at h
    · cases h
    · rename_i hdrop
      intro f hf
      simpa using List.dropWhile_eq_nil_iff.1 hdrop f hf
  | some d =>
    obtain ⟨before, spec⟩ := d
    obtain ⟨rfl, later, hfields⟩ := Layout.upTo?_eq_some_iff.1 h
    have hdistinct := l.wellFormed.distinct
    rw [hfields, List.map_append, List.nodup_append] at hdistinct
    have hnone : before.findIdx? (·.name = spec.name) = none := by
      rw [List.findIdx?_eq_none_iff]
      intro f hf
      simpa using hdistinct.2.2 f.name (List.mem_map_of_mem hf) spec.name (by simp)
    rw [position?, hfields, List.findIdx?_append, hnone]
    simp [List.findIdx?_cons]

namespace FieldReader

variable (p : FieldReader)

/-- Whether the data of a record is read as parts of the first fields of its layout and a rest. -/
structure Reads (count : Nat) (parts : List Part) (rest : Bytes) : Prop where
  specs : parts.map Part.spec = p.layout.fields.take count
  decomposes : Decomposes p.settings.strict p.data parts rest

variable {p} {before : List FieldSpec}

omit [Codecs] in
theorem declaration_eq_ok_iff {name : String} :
    p.declaration name = .ok (before, spec) ↔
      spec.name = name ∧ ∃ later, p.layout.fields = before ++ spec :: later := by
  rw [← Layout.upTo?_eq_some_iff, declaration]
  cases p.layout.upTo? name <;> simp

/-- A declaration is located behind the parts of the declarations before it, unless the walk through
those ends with an error. -/
theorem locateAfter_cases (hfields : p.layout.fields = before ++ spec :: later) :
    (∃ e, (walk p.settings p.data before).failure = some e ∧ p.locateAfter before spec = .error e) ∨
      ∃ parts rest, parts.map Part.spec = before ∧ Decomposes p.settings.strict p.data parts rest ∧
        walk p.settings p.data before = ⟨locatedOf parts, none⟩ ∧
        p.locateAfter before spec =
          (EventTrace.locate p.settings p.data (locatedOf parts) spec).map (⟨spec, ·⟩) := by
  obtain ⟨parts, rest, ht⟩ := exists_traces p.settings p.data (hfields ▸ p.layout.wellFormed)
  obtain ⟨located, failure, hwalk⟩ : ∃ located failure,
      walk p.settings p.data before = ⟨located, failure⟩ := ⟨_, _, rfl⟩
  rw [hwalk] at ht
  obtain rfl : located = locatedOf parts := ht.located
  cases failure with
  | some e => exact .inl ⟨e, by rw [hwalk], by rw [locateAfter, hwalk]⟩
  | none =>
    exact .inr ⟨parts, rest, ht.complete rfl, ht.decomposes, hwalk, by rw [locateAfter, hwalk]⟩

/-- A declaration is located exactly where the data is read as parts up to it. -/
theorem locateAfter_eq_ok_iff {l : Located} (hfields : p.layout.fields = before ++ spec :: later) :
    p.locateAfter before spec = .ok l ↔
      ∃ parts part rest, parts.map Part.spec = before ∧ part.spec = spec ∧
        Decomposes p.settings.strict p.data (parts ++ [part]) rest ∧
        l = ⟨spec, part.segmentAt (bytesOf parts).length⟩ := by
  have hwf := p.layout.wellFormed
  rw [hfields] at hwf
  constructor
  · intro h
    rcases locateAfter_cases hfields with ⟨e, -, he⟩ | ⟨parts, rest, rfl, hd, -, hafter⟩
    · rw [h] at he
      cases he
    · rw [hafter] at h
      cases hlocate : EventTrace.locate p.settings p.data (locatedOf parts) spec with
      | error e => simp [hlocate, Except.map] at h
      | ok s =>
        obtain ⟨part, rest', rfl, rfl, rfl, hp⟩ := (locate_eq_ok_iff hd hwf).1 hlocate
        simp only [hlocate, Except.map, Except.ok.injEq] at h
        exact ⟨parts, part, rest', rfl, rfl, Decomposes.append_singleton_iff.2 ⟨hd, hp⟩, h.symm⟩
  · rintro ⟨parts, part, rest, rfl, rfl, hd, rfl⟩
    obtain ⟨hparts, hp⟩ := Decomposes.append_singleton_iff.1 hd
    have hlocate := (locate_eq_ok_iff hparts hwf).2 ⟨part, rest, rfl, rfl, rfl, hp⟩
    simp only [locateAfter, walk_of_decomposes hparts hwf, hlocate, Except.map]

omit [Codecs] in
theorem reads_of_fields_eq (hfields : p.layout.fields = parts.map Part.spec ++ later)
    (hd : Decomposes p.settings.strict p.data parts rest) : p.Reads parts.length parts rest := by
  refine ⟨?_, hd⟩
  rw [hfields, List.take_left' (List.length_map _)]

omit [Codecs] in
theorem Reads.fields_eq {count : Nat} (h : p.Reads count parts rest) :
    p.layout.fields = parts.map Part.spec ++ p.layout.fields.drop count := by
  rw [h.specs, List.take_append_drop]

omit [Codecs] in
theorem Reads.fields_split {count : Nat} {before after : List Part} {part : Part}
    (h : p.Reads count (before ++ part :: after) rest) :
    p.layout.fields = before.map Part.spec ++ part.spec ::
      (after.map Part.spec ++ p.layout.fields.drop count) := by
  have hfields := h.fields_eq
  rwa [List.map_append, List.map_cons, List.append_assoc, List.cons_append] at hfields

omit [Codecs] in
theorem getElem?_of_fields_eq (hfields : p.layout.fields = before ++ spec :: later) :
    p.layout.fields[before.length]? = some spec := by
  rw [hfields, List.getElem?_append_right (Nat.le_refl _), Nat.sub_self, List.getElem?_cons_zero]

omit [Codecs] in
theorem Reads.getElem? {count : Nat} {before after : List Part} {part : Part}
    (h : p.Reads count (before ++ part :: after) rest) :
    p.layout.fields[before.length]? = some part.spec := by
  have hspec := getElem?_of_fields_eq h.fields_split
  rwa [List.length_map] at hspec

/-- A field is located where its part is. -/
theorem Reads.locate_eq {count : Nat} {before after : List Part} {part : Part}
    (h : p.Reads count (before ++ part :: after) rest) :
    p.locate part.spec.name = .ok ⟨part.spec, part.segmentAt (bytesOf before).length⟩ := by
  have hdeclaration := declaration_eq_ok_iff.2 ⟨rfl, _, h.fields_split⟩
  have hd := h.decomposes
  rw [List.append_cons] at hd
  have hafter := (locateAfter_eq_ok_iff h.fields_split).2
    ⟨before, part, _, rfl, rfl, hd.of_append, rfl⟩
  simp only [locate, hdeclaration, hafter]

/-- Where all fields of a layout are read, they are resolved as their parts lie. -/
theorem Reads.map_resolve (h : p.Reads p.layout.fields.length parts rest) :
    p.layout.fields.map (fun spec => p.resolve spec.name) =
      ((locatedOf parts).map Located.segment).map .ok := by
  have hspecs := h.specs
  rw [List.take_length, ← map_spec_locatedFrom 0] at hspecs
  rw [← hspecs, List.map_map, List.map_map]
  refine List.map_congr_left fun l hl => ?_
  obtain ⟨before, q, after, rfl, rfl⟩ := mem_locatedFrom_iff.1 hl
  rw [Nat.zero_add]
  simp only [Function.comp_apply, resolve, h.locate_eq, Except.map]

/-- What a located field decodes to is the answer to a request for whatever it is. -/
theorem read_any_eq {name : String} {l : Located} {v : FieldValue} (hl : p.locate name = .ok l)
    (hv : l.decode p.settings p.data = .ok v) : p.read .any name = .ok (.value v) := by
  rw [locate] at hl
  rw [read]
  cases hd : p.declaration name with
  | error e => simp [hd] at hl
  | ok d =>
    simp only [hd] at hl
    simp only [Request.accepts, if_true, hl, hv]
    rfl

/-- What a located field decodes to is its value. -/
theorem value_eq {name : String} {l : Located} {v : FieldValue} (hl : p.locate name = .ok l)
    (hv : l.decode p.settings p.data = .ok v) : p.value name = .ok v := by
  simp only [value, parsed, hl, parseLocated, hv]

/-- The data is read as parts of the first fields in one way only. -/
theorem Reads.unique {count : Nat} (h : p.Reads count parts rest) (h' : p.Reads count parts' rest') :
    parts = parts' ∧ rest = rest' := by
  have hwf := p.layout.wellFormed
  rw [← List.take_append_drop count p.layout.fields, ← h.specs] at hwf
  exact h.decomposes.unique h'.decomposes (h.specs.trans h'.specs.symm) hwf

/-- A field is resolved exactly to its part of the data. -/
theorem resolve_eq_ok_iff {s : Segment} (i : Fin p.layout.fields.length) :
    p.resolve p.layout.fields[i].name = .ok s ↔
      ∃ parts part rest, p.Reads (i + 1) (parts ++ [part]) rest ∧
        s = part.segmentAt (bytesOf parts).length := by
  have hfields : p.layout.fields =
      p.layout.fields.take i ++ p.layout.fields[i] :: p.layout.fields.drop (i + 1) := by
    simp
  have hdeclaration := declaration_eq_ok_iff.2 ⟨rfl, _, hfields⟩
  have htake : p.layout.fields.take (i + 1) = p.layout.fields.take i ++ [p.layout.fields[i]] := by
    simp
  have hresolve : p.resolve p.layout.fields[i].name = .ok s ↔
      ∃ l, p.locateAfter (p.layout.fields.take i) p.layout.fields[i] = .ok l ∧ l.segment = s := by
    have hmap : ∀ found : Except ReadError Located,
        found.map Located.segment = .ok s ↔ ∃ l, found = .ok l ∧ l.segment = s := by
      rintro (e | l) <;> simp [Except.map]
    rw [resolve, locate, hdeclaration]
    exact hmap _
  rw [hresolve]
  constructor
  · rintro ⟨l, hl, rfl⟩
    obtain ⟨parts, part, rest, hparts, hpart, hd, rfl⟩ := (locateAfter_eq_ok_iff hfields).1 hl
    refine ⟨parts, part, rest, ⟨?_, hd⟩, rfl⟩
    rw [htake, List.map_append, hparts, List.map_singleton, hpart]
  · rintro ⟨parts, part, rest, h, rfl⟩
    have hspecs := h.specs
    rw [htake, List.map_append] at hspecs
    obtain ⟨hparts, hpart⟩ := List.append_inj' hspecs rfl
    exact ⟨_, (locateAfter_eq_ok_iff hfields).2 ⟨parts, part, rest, hparts,
      by simpa using hpart, h.decomposes, rfl⟩, rfl⟩

/-- A field is resolved exactly if the data is read as parts up to it, in which case it is read so in
one way only, and where the field lies is where its part does. -/
theorem resolve_iff_reads (p : FieldReader) (i : Fin p.layout.fields.length) :
    ((∃ s, p.resolve p.layout.fields[i].name = .ok s) ↔ ∃ parts rest, p.Reads (i + 1) parts rest) ∧
      (∀ parts rest parts' rest', p.Reads (i + 1) parts rest → p.Reads (i + 1) parts' rest' →
        parts = parts' ∧ rest = rest') ∧
      ∀ parts part rest, p.Reads (i + 1) (parts ++ [part]) rest →
        p.resolve p.layout.fields[i].name = .ok (part.segmentAt (bytesOf parts).length) := by
  refine ⟨⟨?_, ?_⟩, fun _ _ _ _ h h' => h.unique h', fun parts part rest h => ?_⟩
  · rintro ⟨s, hs⟩
    obtain ⟨parts, part, rest, h, -⟩ := (resolve_eq_ok_iff i).1 hs
    exact ⟨_, _, h⟩
  · rintro ⟨parts, rest, h⟩
    rcases List.eq_nil_or_concat parts with rfl | ⟨parts, part, rfl⟩
    · have hlength := congrArg List.length h.specs
      have hi := i.isLt
      rw [List.map_nil, List.length_nil, List.length_take] at hlength
      omega
    · rw [List.concat_eq_append] at h
      exact ⟨_, (resolve_eq_ok_iff i).2 ⟨parts, part, rest, h, rfl⟩⟩
  · exact (resolve_eq_ok_iff i).2 ⟨parts, part, rest, h, rfl⟩

/-- A reader of a text behind the number of its units. -/
def counting (data : Bytes) : FieldReader where
  record := .new (.new .nil 1 0) data
  layout := ⟨⟨1, 0⟩, none, [⟨"Count", .scalar (.word .uint8), .fixed 1⟩,
    ⟨"Name", .unicodeString, .lengthField "Count"⟩], rfl⟩

example : (counting [1, 65, 0, 7]).resolve "Name" = .ok ⟨1, 2, 1, 3⟩ := rfl

end FieldReader

end EventTrace
