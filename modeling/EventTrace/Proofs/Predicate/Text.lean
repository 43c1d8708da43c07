import EventTrace.Proofs.Predicate.Meaning
import EventTrace.Proofs.Reading.Extraction
import EventTrace.Proofs.Text.Utf16
import EventTrace.Proofs.Text.Utf8

/-!
# Tests of texts

A test of two texts asks for one relation between lists of characters, and as well between lists of bytes,
of the texts as they stand or with the letters of ASCII in lower case (`TextTest.holds_iff`,
`TextTest.holds_iff_bytes`). Lower case takes for each other the two cases of a letter and nothing else
(`CaseMode.fold_eq_iff`), so a test that ignores case finds what is the needle up to the case of letters.
A condition on the text of a field holds of the records whose field is a string that can be read and passes
the test (`Predicate.holds_text_iff`); `Predicate.text_consistent` puts this together.
-/

namespace EventTrace

/-! ## Letters in either case -/

/-- Whether two characters are the same, or the two cases of a letter of ASCII. -/
def SameLetter (c d : Char) : Prop := d = c ∨ d = c.toLower ∨ d = c.toUpper

/-- The character is none of ASCII. -/
def BeyondAscii (c : Char) : Prop := 128 ≤ c.toNat

section Letters

variable {c d : Char}

theorem toNat_toLower (c : Char) :
    c.toLower.toNat = if 65 ≤ c.toNat ∧ c.toNat ≤ 90 then c.toNat + 32 else c.toNat := by
  by_cases h : 65 ≤ c.toNat ∧ c.toNat ≤ 90
  · have hsum : (c.toNat + 32) % 2 ^ 32 = c.toNat + 32 := by omega
    have hlower : c.toLower = _ := dif_pos h
    rw [hlower, if_pos h]
    exact (UInt32.toNat_add c.val ('a'.val - 'A'.val)).trans hsum
  · have hsame : c.toLower = c := dif_neg h
    rw [hsame, if_neg h]

theorem toNat_toUpper (c : Char) :
    c.toUpper.toNat = if 97 ≤ c.toNat ∧ c.toNat ≤ 122 then c.toNat - 32 else c.toNat := by
  by_cases h : 97 ≤ c.toNat ∧ c.toNat ≤ 122
  · -- the distance between the cases is added as a word, so that the sum wraps
    have hsum : (c.toNat + (2 ^ 32 - 32)) % 2 ^ 32 = c.toNat - 32 := by omega
    have hupper : c.toUpper = _ := dif_pos h
    rw [hupper, if_pos h]
    exact (UInt32.toNat_add c.val ('A'.val - 'a'.val)).trans hsum
  · have hsame : c.toUpper = c := dif_neg h
    rw [hsame, if_neg h]

theorem CaseMode.fold_ignoreCase (c : Char) : CaseMode.ignoreCase.fold c = c.toLower := by
  rw [← Char.toNat_inj, toNat_toLower, CaseMode.fold]
  by_cases h : 'A' ≤ c ∧ c ≤ 'Z'
  · have hrange : 65 ≤ c.toNat ∧ c.toNat ≤ 90 := h
    have hvalid : (c.toNat + 32).isValidChar := .inl (by omega)
    rw [if_pos h, if_pos hrange, Utf16.char_toNat_ofNat hvalid]
  · have hrange : ¬(65 ≤ c.toNat ∧ c.toNat ≤ 90) := h
    rw [if_neg h, if_neg hrange]

/-- Ignoring case takes characters for each other exactly if they are the two cases of a letter. -/
theorem CaseMode.fold_eq_iff :
    CaseMode.ignoreCase.fold c = CaseMode.ignoreCase.fold d ↔ SameLetter c d := by
  rw [fold_ignoreCase, fold_ignoreCase, SameLetter, ← Char.toNat_inj, ← Char.toNat_inj,
    ← Char.toNat_inj, ← Char.toNat_inj, toNat_toLower, toNat_toLower, toNat_toUpper]
  split_ifs <;> omega

theorem SameLetter.symm (h : SameLetter c d) : SameLetter d c :=
  CaseMode.fold_eq_iff.1 (CaseMode.fold_eq_iff.2 h).symm

/-- Beyond ASCII there is no other case of a character. -/
theorem SameLetter.eq (h : SameLetter c d) (hbeyond : BeyondAscii c ∨ BeyondAscii d) : c = d := by
  have hself : ∀ {c d : Char}, BeyondAscii c → SameLetter c d → c = d := by
    intro c d hc h
    have hlower : c.toLower = c := by
      rw [← Char.toNat_inj, toNat_toLower, if_neg]
      exact fun hrange => Nat.not_le.2 (by decide) (hc.trans hrange.2)
    have hupper : c.toUpper = c := by
      rw [← Char.toNat_inj, toNat_toUpper, if_neg]
      exact fun hrange => Nat.not_le.2 (by decide) (hc.trans hrange.2)
    rw [SameLetter, hlower, hupper, or_self, or_self] at h
    exact h.symm
  rcases hbeyond with hc | hd
  · exact hself hc h
  · exact (hself hd h.symm).symm

theorem forall₂_sameLetter_iff {cs ds : List Char} : List.Forall₂ SameLetter cs ds ↔
    cs.map CaseMode.ignoreCase.fold = ds.map CaseMode.ignoreCase.fold := by
  rw [← List.forall₂_eq_eq_eq, List.forall₂_map_left_iff, List.forall₂_map_right_iff]
  simp only [CaseMode.fold_eq_iff]

end Letters

/-! ## Bytes in either case -/

namespace CaseMode

/-- The byte that a mode takes for another one. -/
def foldByte : CaseMode → UInt8 → UInt8
  | .ordinal, b => b
  | .ignoreCase, b => if 65 ≤ b ∧ b ≤ 90 then b + 32 else b

/-- Folding the bytes of a character gives those of the folded character. -/
theorem map_utf8EncodeChar (mode : CaseMode) (c : Char) :
    (String.utf8EncodeChar c).map mode.foldByte = String.utf8EncodeChar (mode.fold c) := by
  cases mode with
  | ordinal => exact List.map_id _
  | ignoreCase =>
    by_cases hascii : c.toNat < 128
    · have hall : ∀ n : Fin 128, (String.utf8EncodeChar (Char.ofNat n)).map ignoreCase.foldByte =
          String.utf8EncodeChar (ignoreCase.fold (Char.ofNat n)) := by decide
      simpa only [Char.ofNat_toNat] using hall ⟨c.toNat, hascii⟩
    · have hbeyond : BeyondAscii c := Nat.not_lt.1 hascii
      have hfold : ignoreCase.fold c = c := by
        rw [fold_ignoreCase]
        exact (SameLetter.eq (.inr (.inl rfl)) (.inl hbeyond)).symm
      rw [hfold]
      refine (List.map_congr_left fun b hb => ?_).trans (List.map_id _)
      rw [foldByte, if_neg, id]
      rintro ⟨-, hgreatest⟩
      exact absurd (Utf8.le_of_mem_utf8EncodeChar hbeyond hb)
        (Nat.not_le.2 (Nat.lt_of_le_of_lt hgreatest (by decide)))

/-- Bytes folded one by one are the bytes of the characters folded one by one. -/
theorem map_encode (mode : CaseMode) (s : String) :
    (Utf8.encode s).map mode.foldByte = Utf8.encodeChars (s.toList.map mode.fold) := by
  rw [Utf8.encode, Utf8.encodeChars, List.map_flatMap, List.flatMap_map]
  simp only [map_utf8EncodeChar]

end CaseMode

/-! ## Tests -/

theorem isInfix_iff {needle : List Char} :
    ∀ {text : List Char}, isInfix needle text = true ↔ needle <:+: text
  | [] => by rw [isInfix, List.isEmpty_iff, List.infix_nil]
  | c :: rest => by
    rw [isInfix, Bool.or_eq_true, List.isPrefixOf_iff_prefix, isInfix_iff, List.infix_cons_iff]

namespace TextTest

/-- What a test asks of two lists. -/
def Relates {α : Type} : TextTest → List α → List α → Prop
  | .equals, text, needle => text = needle
  | .contains, text, needle => needle <:+: text
  | .startsWith, text, needle => needle <+: text
  | .endsWith, text, needle => needle <:+ text

/-- Whether passing one test is enough for passing another one. -/
inductive Entails : TextTest → TextTest → Prop
  | equals_startsWith : Entails .equals .startsWith
  | equals_endsWith : Entails .equals .endsWith
  | startsWith_contains : Entails .startsWith .contains
  | endsWith_contains : Entails .endsWith .contains

variable {α β : Type} {t u : TextTest} {mode : CaseMode} {text needle : String}

/-- A test holds on characters exactly if they are related. -/
theorem holdsOn_iff {cs ds : List Char} : t.holdsOn cs ds = true ↔ t.Relates cs ds := by
  cases t with
  | equals => exact decide_eq_true_iff
  | contains => exact isInfix_iff
  | startsWith => exact List.isPrefixOf_iff_prefix
  | endsWith => exact List.isSuffixOf_iff_suffix

/-- What entails a test relates no more than it does. -/
theorem Entails.relates (h : t.Entails u) {xs ys : List α} (hrel : t.Relates xs ys) : u.Relates xs ys := by
  cases h with
  | equals_startsWith => exact hrel ▸ List.prefix_rfl
  | equals_endsWith => exact hrel ▸ List.suffix_rfl
  | startsWith_contains => exact List.IsPrefix.isInfix hrel
  | endsWith_contains => exact List.IsSuffix.isInfix hrel

/-- What a test finds in a list that is seen through a function is something of the list itself. -/
theorem relates_map_iff {f : α → β} {xs : List α} {ys : List β} :
    t.Relates (xs.map f) ys ↔ ∃ found, t.Relates xs found ∧ found.map f = ys := by
  cases t with
  | equals => simp [Relates]
  | contains => simp only [Relates, List.infix_map_iff, eq_comm]
  | startsWith => simp only [Relates, List.prefix_map_iff, eq_comm]
  | endsWith => simp only [Relates, List.suffix_map_iff, eq_comm]

/-- Bytes are related exactly if the characters are. -/
theorem relates_encodeChars_iff {cs ds : List Char} :
    t.Relates (Utf8.encodeChars cs) (Utf8.encodeChars ds) ↔ t.Relates cs ds := by
  cases t with
  | equals => exact Utf8.encodeChars_inj
  | contains => exact Utf8.encodeChars_isInfix_iff
  | startsWith => exact Utf8.encodeChars_isPrefix_iff
  | endsWith => exact Utf8.encodeChars_isSuffix_iff

theorem holds_iff : t.holds mode text needle = true ↔
    t.Relates (text.toList.map mode.fold) (needle.toList.map mode.fold) := holdsOn_iff

/-- A test is one of bytes as well. -/
theorem holds_iff_bytes : t.holds mode text needle = true ↔
    t.Relates ((Utf8.encode text).map mode.foldByte) ((Utf8.encode needle).map mode.foldByte) := by
  rw [CaseMode.map_encode, CaseMode.map_encode, relates_encodeChars_iff, holds_iff]

theorem holds_ordinal_iff :
    t.holds .ordinal text needle = true ↔ t.Relates text.toList needle.toList := by
  have hfold : ∀ cs : List Char, cs.map CaseMode.ordinal.fold = cs := List.map_id
  rw [holds_iff, hfold, hfold]

theorem holds_ignoreCase_iff : t.holds .ignoreCase text needle = true ↔
    ∃ found, t.Relates text.toList found ∧ List.Forall₂ SameLetter found needle.toList := by
  simp only [holds_iff, relates_map_iff, forall₂_sameLetter_iff]

theorem holds_ignoreCase_of_ordinal (h : t.holds .ordinal text needle = true) :
    t.holds .ignoreCase text needle = true :=
  holds_ignoreCase_iff.2 ⟨needle.toList, holds_ordinal_iff.1 h, forall₂_sameLetter_iff.2 rfl⟩

theorem holds_ignoreCase_congr {text' needle' : String}
    (htext : List.Forall₂ SameLetter text.toList text'.toList)
    (hneedle : List.Forall₂ SameLetter needle.toList needle'.toList) :
    t.holds .ignoreCase text' needle' = t.holds .ignoreCase text needle := by
  rw [holds, holds, forall₂_sameLetter_iff.1 htext, forall₂_sameLetter_iff.1 hneedle]

theorem Entails.holds (h : t.Entails u) (ht : t.holds mode text needle = true) :
    u.holds mode text needle = true :=
  holds_iff.2 (h.relates (holds_iff.1 ht))

end TextTest

/-- Whether the tests of two texts are consistent: what they find is the needle, character by character and
byte by byte, up to the case of letters if case is ignored, and of two tests the stronger one finds less. -/
structure TextTest.Consistent (text needle : String) : Prop where
  /-- An ordinal test is equality, infix, prefix or suffix of the characters. -/
  characters : ∀ t : TextTest, t.holds .ordinal text needle = true ↔ t.Relates text.toList needle.toList
  /-- To look at the bytes comes to the same as to look at the characters. -/
  bytes : ∀ (t : TextTest) (mode : CaseMode), t.holds mode text needle = true ↔
    t.Relates ((Utf8.encode text).map mode.foldByte) ((Utf8.encode needle).map mode.foldByte)
  /-- If case is ignored, what is found is the needle with letters in either case. -/
  letters : ∀ t : TextTest, t.holds .ignoreCase text needle = true ↔
    ∃ found, t.Relates text.toList found ∧ List.Forall₂ SameLetter found needle.toList
  /-- Even then, a character beyond ASCII is found only as itself. -/
  exact : ∀ t : TextTest, t.holds .ignoreCase text needle = true →
    ∃ found, t.Relates text.toList found ∧
      List.Forall₂ (fun c d => BeyondAscii c ∨ BeyondAscii d → c = d) found needle.toList
  /-- The case of letters on either side makes no difference then. -/
  recased : ∀ (t : TextTest) (text' needle' : String),
    List.Forall₂ SameLetter text.toList text'.toList →
    List.Forall₂ SameLetter needle.toList needle'.toList →
      t.holds .ignoreCase text' needle' = t.holds .ignoreCase text needle
  ordinal : ∀ t : TextTest, t.holds .ordinal text needle = true → t.holds .ignoreCase text needle = true
  entails : ∀ (mode : CaseMode) (t u : TextTest), t.Entails u →
    t.holds mode text needle = true → u.holds mode text needle = true

/-- The tests of a text agree with one another and with its bytes. -/
theorem TextTest.consistent (text needle : String) : TextTest.Consistent text needle where
  characters _ := holds_ordinal_iff
  bytes _ _ := holds_iff_bytes
  letters _ := holds_ignoreCase_iff
  exact t h := by
    obtain ⟨found, hfound, hletters⟩ := holds_ignoreCase_iff.1 h
    exact ⟨found, hfound, hletters.imp fun _ _ => SameLetter.eq⟩
  recased _ _ _ := holds_ignoreCase_congr
  ordinal _ := holds_ignoreCase_of_ordinal
  entails _ _ _ := Entails.holds

/-- Only the letters of ASCII have two cases here. -/
example : TextTest.endsWith.holds .ignoreCase "Größe.LOG" "ße.log" = true ∧
    TextTest.contains.holds .ignoreCase "Größe.LOG" "GRÖ" = false := by decide

/-! ## Conditions on the text of a field -/

theorem FieldReader.answer_text_iff {l : Located} {v : FieldValue} {s : String} :
    answer .text l v = .ok (.text s) ↔ v.text? = some s := by
  cases v <;> simp [answer, Request.extract, FieldValue.text?]

variable [Codecs] {μ : Type} {p : FieldReader} {field needle : String} {t u : TextTest} {mode : CaseMode}

/-- A text is read from the fields that are strings and whose value is one. -/
theorem FieldReader.read_text_iff {s : String} : p.read .text field = .ok (.text s) ↔
    ∃ spec ∈ p.layout.fields, spec.name = field ∧ spec.type.isString = true ∧
      ∃ v, p.value field = .ok v ∧ v.text? = some s := by
  by_cases hdeclared : ∃ spec ∈ p.layout.fields, spec.name = field
  · obtain ⟨spec, hspec, rfl⟩ := hdeclared
    have hvalue : p.read .text spec.name = .ok (.text s) ↔ spec.type.isString = true ∧
        ∃ v, p.value spec.name = .ok v ∧ v.text? = some s := by
      rw [read_of_declared hspec, value, parsed]
      by_cases hstring : spec.type.isString = true
      · rw [Request.accepts, if_pos hstring]
        cases p.locate spec.name with
        | error e => simp
        | ok l =>
          simp only [parseLocated, hstring, true_and]
          cases l.decode p.settings p.data with
          | error e => simp
          | ok v => simp [answer_text_iff]
      · rw [Request.accepts, if_neg hstring]
        simp [hstring]
    rw [hvalue]
    constructor
    · exact fun h => ⟨spec, hspec, rfl, h⟩
    · rintro ⟨spec', hspec', hname, h⟩
      rwa [eq_of_name_eq hspec' hspec hname] at h
  · have hname : ∀ spec ∈ p.layout.fields, spec.name ≠ field := fun spec hspec h =>
      hdeclared ⟨spec, hspec, h⟩
    rw [read_of_undeclared hname]
    refine iff_of_false (by simp) ?_
    rintro ⟨spec, hspec, h, -⟩
    exact hname spec hspec h

namespace Predicate

/-- A condition on the text of a field holds if the field is a string that can be read and its text passes
the test. -/
theorem holds_text_iff : (text field t needle mode : Predicate μ).holds p = true ↔
    ∃ spec ∈ p.layout.fields, spec.name = field ∧ spec.type.isString = true ∧
      ∃ v s, p.value field = .ok v ∧ v.text? = some s ∧ t.holds mode s needle = true := by
  rw [holds, result_evaluate_iff, FieldReader.Meets]
  simp only [FieldReader.read_text_iff]
  constructor
  · rintro ⟨s, ⟨spec, hspec, hname, hstring, v, hv, hs⟩, h⟩
    exact ⟨spec, hspec, hname, hstring, v, s, hv, hs, h⟩
  · rintro ⟨spec, hspec, hname, hstring, v, s, hv, hs, h⟩
    exact ⟨s, ⟨spec, hspec, hname, hstring, v, hv, hs⟩, h⟩

/-- What is enough for a test of texts is enough for the condition on a field. -/
theorem holds_text_of_imp {mode' : CaseMode}
    (himp : ∀ s, t.holds mode s needle = true → u.holds mode' s needle = true)
    (h : (text field t needle mode : Predicate μ).holds p = true) :
    (text field u needle mode' : Predicate μ).holds p = true := by
  obtain ⟨spec, hspec, hname, hstring, v, s, hv, hs, ht⟩ := holds_text_iff.1 h
  exact holds_text_iff.2 ⟨spec, hspec, hname, hstring, v, s, hv, hs, himp s ht⟩

/-- Whether the conditions on the text of a field are consistent: they hold of strings only, and of two of
them the stronger one holds of fewer. -/
structure TextConsistent (μ : Type) (p : FieldReader) (field needle : String) : Prop where
  holds : ∀ (t : TextTest) (mode : CaseMode),
    (text field t needle mode : Predicate μ).holds p = true ↔
      ∃ spec ∈ p.layout.fields, spec.name = field ∧ spec.type.isString = true ∧
        ∃ v s, p.value field = .ok v ∧ v.text? = some s ∧ t.holds mode s needle = true
  missing : (∀ spec ∈ p.layout.fields, spec.name ≠ field) → ∀ (t : TextTest) (mode : CaseMode),
    (text field t needle mode : Predicate μ).holds p = false
  nonString : ∀ spec ∈ p.layout.fields, spec.name = field → spec.type.isString = false →
    ∀ (t : TextTest) (mode : CaseMode), (text field t needle mode : Predicate μ).holds p = false
  undecodable : ∀ e, p.value field = .error e → ∀ (t : TextTest) (mode : CaseMode),
    (text field t needle mode : Predicate μ).holds p = false
  ordinal : ∀ t : TextTest, (text field t needle .ordinal : Predicate μ).holds p = true →
    (text field t needle .ordinal : Predicate μ).ignoreCase.holds p = true
  entails : ∀ (mode : CaseMode) (t u : TextTest), t.Entails u →
    (text field t needle mode : Predicate μ).holds p = true →
      (text field u needle mode : Predicate μ).holds p = true

/-- The tests of texts are consistent, and so are the conditions on the text of a field, whatever the record,
its layout and the settings are. -/
theorem text_consistent (μ : Type) :
    (∀ text needle : String, TextTest.Consistent text needle) ∧
      ∀ (p : FieldReader) (field needle : String), TextConsistent μ p field needle := by
  refine ⟨TextTest.consistent, fun p field needle => ?_⟩
  constructor
  case holds => exact fun _ _ => holds_text_iff
  case missing =>
    intro hname t mode
    rw [Bool.eq_false_iff, Ne, holds_text_iff]
    rintro ⟨spec, hspec, h, -⟩
    exact hname spec hspec h
  case nonString =>
    rintro spec hspec rfl hstring t mode
    rw [Bool.eq_false_iff, Ne, holds_text_iff]
    rintro ⟨spec', hspec', hname, hstring', -⟩
    rw [FieldReader.eq_of_name_eq hspec' hspec hname, hstring] at hstring'
    cases hstring'
  case undecodable =>
    intro e he t mode
    rw [Bool.eq_false_iff, Ne, holds_text_iff]
    rintro ⟨-, -, -, -, v, -, hv, -⟩
    cases he.symm.trans hv
  case ordinal => exact fun _ => holds_text_of_imp fun _ => TextTest.holds_ignoreCase_of_ordinal
  case entails => exact fun _ _ _ h => holds_text_of_imp fun _ => h.holds

end Predicate

end EventTrace
