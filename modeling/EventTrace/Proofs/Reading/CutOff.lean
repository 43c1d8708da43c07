import EventTrace.Proofs.Reading.Dependence

/-!
# Data that was cut off

A reader that insists on terminators never mistakes a piece of data for the whole. Whatever it reads in
data that was cut off it reads in all of the data, at the same place; where it cannot, the data is too
short, and it says so (`FieldReader.read_cut_off`). Only a field that takes all that is left is
different, since it has no end of its own.
-/

namespace EventTrace

/-- Whether an error says that an integer is no length. -/
def ReadError.IsNoLength (e : ReadError) : Prop :=
  ∃ name reference count, e = .lengthReference name reference count

namespace FieldReader

section

variable [Codecs] {p : FieldReader} {spec : FieldSpec} {before later : List FieldSpec}

/-- Whether two readers come to the same with a field: to a value in one place, to bytes in one place
that are no text, or to an integer that is no length. -/
inductive Concur (p q : FieldReader) (name : String) : Prop where
  | value (s : Segment) (v : FieldValue)
      (resolves : p.resolve name = .ok s ∧ q.resolve name = .ok s)
      (reads : p.read .any name = .ok (.value v) ∧ q.read .any name = .ok (.value v))
  | noText (s : Segment) (e : ReadError) (isNoText : e.IsNoText name s.offset)
      (resolves : p.resolve name = .ok s ∧ q.resolve name = .ok s)
      (reads : p.read .any name = .error e ∧ q.read .any name = .error e)
  | noLength (e : ReadError) (isNoLength : e.IsNoLength)
      (resolves : p.resolve name = .error e ∧ q.resolve name = .error e)
      (reads : p.read .any name = .error e ∧ q.read .any name = .error e)

omit [Codecs] in
/-- A field before the last one does not take all that is left. -/
theorem rule_ne_remainder (hfields : p.layout.fields = before ++ spec :: later) {f : FieldSpec}
    (hf : f ∈ before) : f.rule ≠ .remainder := by
  intro hrule
  obtain ⟨front, back, rfl⟩ := List.append_of_mem hf
  rw [List.append_assoc, List.cons_append] at hfields
  have hlast := p.layout.wellFormed.last hfields hrule
  simp at hlast

/-- Two readers come to the same with a field that they read as the same part. -/
theorem Reads.concur {q : FieldReader} {count count' : Nat} {parts : List Part} {part : Part}
    {rest rest' : Bytes} (h : q.Reads count (parts ++ [part]) rest)
    (h' : p.Reads count' (parts ++ [part]) rest') (hsettings : q.settings = p.settings) :
    q.Concur p part.spec.name := by
  have hconforms := h.decomposes.conforms parts part [] rfl
  have hsuits := q.layout.wellFormed.suits h.fields_split
  have hresolves : q.resolve part.spec.name = .ok (part.segmentAt (bytesOf parts).length) ∧
      p.resolve part.spec.name = .ok (part.segmentAt (bytesOf parts).length) :=
    ⟨resolve_eq_ok h.locate_eq, resolve_eq_ok h'.locate_eq⟩
  have hread := h.read_any_eq
  have hsame := h.read_eq h' hsettings .any
  rcases hconforms.decode_cases hsuits q.settings (bytesOf parts).length with
    ⟨v, hv⟩ | ⟨-, e, he, hv⟩
  · rw [hv] at hread
    exact .value _ v hresolves ⟨hread, hsame ▸ hread⟩
  · rw [hv] at hread
    exact .noText _ e he hresolves ⟨hread, hsame ▸ hread⟩

/-- A reader that insists on terminators comes to the same with a field of data that was cut off as
with that field of all the data, or the data is too short for it. So whatever is read in data that was
cut off stays what it is when more bytes follow. -/
theorem read_cut_off (p : FieldReader) (cut : Record) (hstrict : p.settings.strict = true)
    (hcut : cut.userData <+: p.data) (hspec : spec ∈ p.layout.fields)
    (hrule : spec.rule ≠ .remainder) :
    ((p.withRecord cut).Concur p spec.name ∨
        ReadError.IsTruncated ((p.withRecord cut).read .any spec.name)) ∧
      ∀ request x, (p.withRecord cut).read request spec.name = .ok x →
        p.read request spec.name = .ok x := by
  obtain ⟨before, later, hfields⟩ := List.append_of_mem hspec
  obtain ⟨more, hmore⟩ := hcut
  have hrules : ∀ f ∈ before ++ [spec], f.rule ≠ .remainder := by
    intro f hf
    rcases List.mem_append.1 hf with hf | hf
    · exact rule_ne_remainder hfields hf
    · rwa [List.mem_singleton.1 hf]
  -- parts of the data that was cut off are parts of all the data
  have hextend : ∀ {parts : List Part} {rest : Bytes}, parts.map Part.spec <+: before ++ [spec] →
      Decomposes p.settings.strict cut.userData parts rest →
      Decomposes p.settings.strict p.data parts (rest ++ more) := by
    intro parts rest hparts hd
    rw [hstrict] at hd ⊢
    rw [← hmore]
    exact hd.append_of_strict (fun q hq => hrules _ (hparts.mem (List.mem_map_of_mem hq))) more
  rcases locate_cases (p := p.withRecord cut) hfields with
    ⟨parts, part, rest, rfl, rfl, h⟩ | ⟨parts, f, after, rest, e, hspecs, hd, hlocate, he⟩
  · have hall : p.Reads (parts ++ [part]).length (parts ++ [part]) (rest ++ more) :=
      ⟨h.specs, hextend (by simp) h.decomposes⟩
    refine ⟨.inl (h.concur hall rfl), fun request x hx => ?_⟩
    rw [← hx]
    exact (h.read_eq hall rfl request).symm
  · obtain ⟨hsame, hmem⟩ := split_of_append_eq hfields hspecs
    have hwf := p.layout.wellFormed
    rw [hsame] at hwf
    have hread := read_any_eq_error he
    refine ⟨?_, fun request x hx => ?_⟩
    · rcases locate_eq_error_cases hd hwf hlocate with ⟨s, rfl, -⟩ | hmisled
      · exact .inr ⟨s, hread⟩
      · have hd' := hextend (by rw [hspecs]; simp) hd
        have he' : p.locate spec.name = .error e :=
          locate_eq_error hd' hsame (hmisled.locate_eq hd' hwf) hmem
        obtain ⟨reference, count, -, -, -, rfl⟩ := hmisled
        exact .inl (.noLength _ ⟨_, _, _, rfl⟩ ⟨resolve_eq_error he, resolve_eq_error he'⟩
          ⟨hread, read_any_eq_error he'⟩)
    · rw [read_of_fields_eq (p := p.withRecord cut) hfields, he] at hx
      split at hx <;> cases hx

end

/-- A reader that insists on terminators, of a name and a number behind it. -/
def naming (data : Bytes) : FieldReader where
  record := .new (.new .nil 1 0) data
  layout := ⟨⟨1, 0⟩, none, [⟨"Name", .unicodeString, .nullTerminated⟩,
    ⟨"Kind", .scalar (.word .uint16), .fixed 2⟩], rfl⟩
  settings := { strict := true }

/-- The name of a record whose last byte is missing. -/
theorem read_cut_off_naming :
    (naming [65, 0, 0, 0, 7]).read .text "Name" = .ok (.text "A") ∧
      (naming [65, 0, 0, 0, 7, 0]).read .text "Name" = .ok (.text "A") := by
  have hname : ⟨"Name", .unicodeString, .nullTerminated⟩ ∈ (naming []).layout.fields := .head _
  have hcut : (naming [65, 0, 0, 0, 7]).read .text "Name" = .ok (.text "A") := rfl
  have hall := read_cut_off (naming [65, 0, 0, 0, 7, 0]) (naming [65, 0, 0, 0, 7]).record rfl
    (by decide) hname (by decide)
  exact ⟨hcut, hall.2 .text _ hcut⟩

end FieldReader

end EventTrace
