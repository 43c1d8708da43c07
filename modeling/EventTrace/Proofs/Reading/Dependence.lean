import EventTrace.Proofs.Reading.Bounds
import EventTrace.Proofs.Reading.Shortage

/-!
# What a field depends on

Behind parts of the data, a field is located by what is left of the data, by where that begins, and by
the integers among the parts (`locate_congr`). So parts may be put behind others that hold the same
integers, and whether terminators must be there or more data follows is a matter only of the parts
that have no end of their own (`Part.Conforms.of_le`).
-/

namespace EventTrace

/-! ## Parts in another place -/

section Parts

variable {strict strict' : Bool} {data rest rest' : Bytes} {earlier earlier' parts : List Part}
  {p : Part}

/-- A part conforms behind other parts that hold the same integers, and where a missing terminator is
tolerated if it was; what is left matters only to a part that takes all that there is. -/
theorem Part.Conforms.of_le (h : p.Conforms strict earlier rest)
    (hholds : ∀ name n, Part.Holds earlier name n → Part.Holds earlier' name n)
    (hstrict : strict = false → strict' = false)
    (hrest : strict = false ∨ p.spec.rule = .remainder → rest = [] → rest' = []) :
    p.Conforms strict' earlier' rest' := by
  unfold Part.Conforms at h ⊢
  cases hrule : p.spec.rule with
  | fixed width => simpa only [hrule] using h
  | nullTerminated =>
    simp only [hrule] at h ⊢
    obtain ⟨hlead, hterminated | ⟨hlenient, hwhole, hne, hfree, hnil⟩⟩ := h
    · exact ⟨hlead, .inl hterminated⟩
    · exact ⟨hlead, .inr ⟨hstrict hlenient, hwhole, hne, hfree, hrest (.inl hlenient) hnil⟩⟩
  | lengthField reference =>
    simp only [hrule] at h ⊢
    obtain ⟨hlead, htail, count, hcount, hbounds⟩ := h
    exact ⟨hlead, htail, count, hholds reference count hcount, hbounds⟩
  | remainder =>
    simp only [hrule] at h ⊢
    exact ⟨h.1, h.2.1, hrest (.inr hrule) h.2.2⟩
  | counted => simpa only [hrule] using h

/-- Parts of data whose terminators are all there are parts of it in either mode. -/
theorem Decomposes.of_strict (h : Decomposes true data parts rest) (strict : Bool) :
    Decomposes strict data parts rest where
  eq := h.eq
  conforms before p after heq :=
    (h.conforms before p after heq).of_le (fun _ _ hn => hn) nofun fun _ hnil => hnil

/-- Parts stay parts when other bytes follow. Only behind parts that have no end of their own must
nothing follow where nothing did. -/
theorem Decomposes.with_rest (h : Decomposes strict data parts rest)
    (hrest : ∀ p ∈ parts, strict = false ∨ p.spec.rule = .remainder → rest = [] → rest' = []) :
    Decomposes strict (bytesOf parts ++ rest') parts rest' where
  eq := rfl
  conforms before p after heq := by
    refine (h.conforms before p after heq).of_le (fun _ _ hn => hn) id fun hopen hnil => ?_
    obtain ⟨hafter, hnil⟩ := List.append_eq_nil_iff.1 hnil
    rw [hafter, hrest p (by simp [heq]) hopen hnil, List.append_nil]

/-- Parts of data whose terminators are all there are parts of longer data, unless one of them takes
all that is left. -/
theorem Decomposes.append_of_strict (h : Decomposes true data parts rest)
    (hrule : ∀ p ∈ parts, p.spec.rule ≠ .remainder) (more : Bytes) :
    Decomposes true (data ++ more) parts (rest ++ more) := by
  rw [h.eq, List.append_assoc]
  refine h.with_rest fun p hp => ?_
  rintro (hstrict | hremainder)
  · cases hstrict
  · exact absurd hremainder (hrule p hp)

end Parts

/-! ## Exchanged parts -/

section Exchange

variable {strict : Bool} {data rest : Bytes} {before after : List Part} {p q : Part}

/-- What some parts hold stays when one of them is exchanged for one that holds the same. -/
theorem Part.holds_exchange (hspec : q.spec = p.spec) (hinteger : q.integer? = p.integer?)
    (name : String) (n : Int) :
    Part.Holds (before ++ p :: after) name n ↔ Part.Holds (before ++ q :: after) name n := by
  simp only [Part.Holds, List.mem_append, List.mem_cons, or_and_right, exists_or, exists_eq_left,
    hspec, hinteger]

/-- A part may be exchanged for one that is as long, holds the same and conforms, too. -/
theorem Decomposes.exchange (h : Decomposes strict data (before ++ p :: after) rest)
    (hspec : q.spec = p.spec) (hinteger : q.integer? = p.integer?)
    (hlength : q.bytes.length = p.bytes.length)
    (hq : q.Conforms strict before (bytesOf after ++ rest)) :
    Decomposes strict (bytesOf (before ++ q :: after) ++ rest) (before ++ q :: after) rest := by
  induction after using List.reverseRecOn generalizing rest with
  | nil =>
    obtain ⟨hbefore, -⟩ := Decomposes.append_singleton_iff.1 h
    refine Decomposes.append_singleton_iff.2 ⟨?_, hq⟩
    rw [bytesOf_append, bytesOf_cons, bytesOf_nil, List.append_nil, List.append_assoc]
    refine hbefore.with_rest fun _ _ _ hnil => ?_
    obtain ⟨hp, rfl⟩ := List.append_eq_nil_iff.1 hnil
    rw [hp, List.length_nil] at hlength
    rw [List.eq_nil_of_length_eq_zero hlength, List.append_nil]
  | append_singleton after last ih =>
    rw [← List.cons_append, ← List.append_assoc] at h ⊢
    obtain ⟨hfront, hlast⟩ := Decomposes.append_singleton_iff.1 h
    rw [bytesOf_append, bytesOf_cons, bytesOf_nil, List.append_nil, List.append_assoc] at hq
    refine Decomposes.append_singleton_iff.2 ⟨?_, ?_⟩
    · rw [bytesOf_append, bytesOf_cons, bytesOf_nil, List.append_nil, List.append_assoc]
      exact ih hfront hq
    · exact hlast.of_le (fun name n => (Part.holds_exchange hspec hinteger name n).1) id
        fun _ hnil => hnil

/-- Where two data are the same before and behind parts in one place, the parts before these are the
same. -/
theorem Decomposes.eq_around [Codecs] {data' rest' : Bytes} {before' : List Part}
    {later : List FieldSpec} (h : Decomposes strict data (before ++ [p]) rest)
    (h' : Decomposes strict data' (before' ++ [q]) rest')
    (hspecs : before'.map Part.spec = before.map Part.spec)
    (hwf : Layout.WellFormed (before.map Part.spec ++ later))
    (hoffset : (bytesOf before').length = (bytesOf before).length)
    (hlength : q.bytes.length = p.bytes.length)
    (hfront : data'.take (bytesOf before).length = data.take (bytesOf before).length)
    (hback : data'.drop ((bytesOf before).length + p.bytes.length) =
      data.drop ((bytesOf before).length + p.bytes.length)) :
    before' = before ∧ rest' = rest := by
  obtain ⟨hbefore, -⟩ := Decomposes.append_singleton_iff.1 h
  obtain ⟨hbefore', -⟩ := Decomposes.append_singleton_iff.1 h'
  have hsame : bytesOf before' = bytesOf before := by
    rwa [hbefore.eq, hbefore'.eq, List.take_left, List.take_left' hoffset] at hfront
  have hrest : rest' = rest := by
    rwa [hbefore.eq, hbefore'.eq, hsame, ← List.drop_drop, ← List.drop_drop, List.drop_left,
      List.drop_left, List.drop_left, List.drop_left' hlength] at hback
  subst hrest
  have hshort : Decomposes strict data before' (p.bytes ++ rest') := by
    rw [hbefore.eq, ← hsame]
    refine hbefore'.with_rest fun _ _ _ hnil => ?_
    obtain ⟨hq, hnil⟩ := List.append_eq_nil_iff.1 hnil
    rw [hq, List.length_nil] at hlength
    rw [hnil, List.eq_nil_of_length_eq_zero hlength.symm, List.append_nil]
  exact ⟨(hshort.unique hbefore hspecs (hspecs.symm ▸ hwf)).1, rfl⟩

end Exchange

def FieldReader.withRecord (p : FieldReader) (r : Record) : FieldReader := { p with record := r }

/-! ## Locating -/

variable [Codecs] {settings settings' : Settings} {data data' rest : Bytes}
  {parts parts' : List Part} {spec : FieldSpec} {later : List FieldSpec}

/-- What is left of the data, where it begins and the integers that were read settle where a field
lies. The mode matters only where a terminator is missing. -/
theorem locate_congr (hd : Decomposes settings.strict data parts rest)
    (hd' : Decomposes settings'.strict data' parts' rest)
    (hspecs : parts.map Part.spec = parts'.map Part.spec)
    (hlength : (bytesOf parts).length = (bytesOf parts').length)
    (hholds : ∀ name n, Part.Holds parts name n ↔ Part.Holds parts' name n)
    (hwf : Layout.WellFormed (parts.map Part.spec ++ spec :: later))
    (hmode : spec.rule = .nullTerminated → rest ≠ [] → spec.type.NulFree rest →
      settings.strict = settings'.strict) :
    locate settings data (locatedOf parts) spec = locate settings' data' (locatedOf parts') spec := by
  have hplain : ∀ length, locatePlain data spec (bytesOf parts).length length =
      locatePlain data' spec (bytesOf parts').length length := by
    intro length
    rw [hd.eq, hd'.eq, locatePlain, locatePlain, require_append, require_append, hlength]
  cases hrule : spec.rule with
  | fixed width =>
    simp only [locate, hrule, stopOf_locatedOf]
    exact hplain width
  | nullTerminated =>
    simp only [locate, hrule, stopOf_locatedOf]
    rw [hd.eq, hd'.eq, locateTerminated_append, locateTerminated_append, hlength]
    by_cases hnil : rest = []
    · rw [if_pos hnil, if_pos hnil]
    · rw [if_neg hnil, if_neg hnil]
      cases hnul : spec.type.nul? rest with
      | some n => rfl
      | none => rw [hmode hrule hnil (spec.type.nul?_eq_none_iff.1 hnul)]
  | lengthField reference =>
    obtain ⟨_, _, _, count, _, _, _, hcount, _, hread⟩ := exists_reference hd hwf hrule
    obtain ⟨_, _, _, count', _, _, _, hcount', _, hread'⟩ :=
      exists_reference hd' (hspecs ▸ hwf) hrule
    obtain rfl : count' = count :=
      (hcount count').1 ((hholds reference count').2 ((hcount' count').2 rfl))
    simp only [locate, hrule, stopOf_locatedOf, (hread settings).2, (hread' settings').2]
    cases lengthOf spec reference count' with
    | error e => rfl
    | ok length => exact hplain length
  | remainder =>
    simp only [locate, hrule, stopOf_locatedOf]
    rw [hd.length_eq, hd'.length_eq, hlength, Nat.add_sub_cancel_left]
  | counted =>
    simp only [locate, hrule, stopOf_locatedOf]
    rw [hd.eq, hd'.eq, locateCounted_append, locateCounted_append, hlength]

end EventTrace
