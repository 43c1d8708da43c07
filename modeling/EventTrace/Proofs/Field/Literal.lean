import EventTrace.Field.Literal
import EventTrace.Proofs.Decimal.Whole
import EventTrace.Proofs.Guid.Format

/-!
# Printed values are literals

A literal of a word type is an integer that the word can hold, and it is read as that integer
(`Literal.parse_word_eq_ok_iff`). So the plain text of a value is a literal of its type that is read as the
value, except for floating-point numbers and instants (`Literal.parse_display`).
-/

namespace EventTrace

namespace Literal

/-- Whether characters spell an integer: in base sixteen behind a mark, in base ten otherwise. -/
inductive Spells : List Char → Int → Prop
  | decimal {cs : List Char} {k : Int} : Decimal.SpellsInt 10 cs k → Spells cs k
  | marked {mark : Char} {cs : List Char} {k : Int} : mark = 'x' ∨ mark = 'X' →
    Decimal.SpellsInt 16 cs k → Spells ('0' :: mark :: cs) k

end Literal

namespace WordType

/-- Whether the words of a type are shown and read as integers. -/
def IsWhole (t : WordType) : Prop := t ≠ .float32 ∧ t ≠ .float64 ∧ t ≠ .filetime

/-- Whether a word of the type can be an integer. -/
def Holds (t : WordType) (k : Int) : Prop :=
  if t.isSigned then -2 ^ (t.bits - 1) ≤ k ∧ k < 2 ^ (t.bits - 1) else 0 ≤ k ∧ k < 2 ^ t.bits

variable {t : WordType} {k : Int}

theorem IsWhole.form (h : t.IsWhole) : t.form = .whole ∨ t.form = .hex := by
  obtain ⟨h32, h64, htime⟩ := h
  cases t <;> simp_all [WordType.form]

/-- A word holds the integers from the least to the greatest one of its type. -/
theorem holds_iff_wordRange : t.Holds k ↔ (Literal.wordRange t).1 ≤ k ∧ k ≤ (Literal.wordRange t).2 := by
  have hcount : ∀ bits, Int.ofNat (wordCount bits) = 2 ^ bits := fun bits => Int.natCast_pow 2 bits
  rw [Holds, Literal.wordRange]
  cases t.isSigned with
  | true => simp only [if_true, hcount, Int.le_sub_one_iff]
  | false => simp only [Bool.false_eq_true, if_false, hcount, Int.le_sub_one_iff]

/-- The word of an integer that it can be is that integer. -/
theorem wordInt_ofInt (h : t.Holds k) : Scalar.wordInt t (BitVec.ofInt t.bits k) = k := by
  rw [Holds] at h
  rw [Scalar.wordInt]
  by_cases hsigned : t.isSigned = true
  · rw [if_pos hsigned] at h ⊢
    exact BitVec.toInt_ofInt_eq_self (Nat.mul_pos (by decide) t.width_pos) h.1 h.2
  · rw [if_neg hsigned] at h ⊢
    rw [BitVec.toNat_ofInt, Int.emod_eq_of_lt h.1 (by exact_mod_cast h.2)]
    exact Int.toNat_of_nonneg h.1

theorem holds_wordInt (t : WordType) (w : BitVec t.bits) : t.Holds (Scalar.wordInt t w) := by
  rw [Holds, Scalar.wordInt]
  by_cases hsigned : t.isSigned = true
  · rw [if_pos hsigned, if_pos hsigned]
    exact ⟨BitVec.le_toInt w, BitVec.toInt_lt⟩
  · rw [if_neg hsigned, if_neg hsigned]
    have hlt : (w.toNat : Int) < 2 ^ t.bits := by exact_mod_cast w.isLt
    exact ⟨Int.natCast_nonneg _, hlt⟩

/-- Two words of a type that stand for one integer are the same. -/
theorem wordInt_injective (t : WordType) : Function.Injective (Scalar.wordInt t) := by
  intro v w h
  rw [Scalar.wordInt, Scalar.wordInt] at h
  by_cases hsigned : t.isSigned = true
  · rw [if_pos hsigned, if_pos hsigned] at h
    exact BitVec.eq_of_toInt_eq h
  · rw [if_neg hsigned, if_neg hsigned] at h
    exact BitVec.eq_of_toNat_eq (Int.ofNat.inj h)

/-- What a word can be is within the range of the integers that are read. -/
theorem Holds.within (h : t.Holds k) :
    -(Decimal.wholeBound : Int) ≤ k ∧ k < Decimal.wholeBound := by
  have hbits : t.bits ≤ 64 := by cases t <;> decide
  have hbound : (Decimal.wholeBound : Int) = 2 ^ 127 := Int.natCast_pow 2 127
  have hpow : ∀ bits : Nat, bits ≤ 64 → (2 : Int) ^ bits ≤ 2 ^ 64 := fun bits hle => by
    exact_mod_cast Nat.pow_le_pow_right (by decide) hle
  rw [Holds] at h
  have hsigned := hpow (t.bits - 1) (by omega)
  have hunsigned := hpow t.bits hbits
  have hword : (2 : Int) ^ 64 ≤ 2 ^ 127 := by norm_num
  rw [hbound]
  split at h
  · constructor <;> omega
  · constructor <;> omega

end WordType

/-! ## Words -/

namespace Literal

variable {t : WordType} {k : Int} {cs : List Char} {text : String} {v : FieldValue}

/-- There are no blanks in what spells an integer. -/
theorem Spells.trimChars_eq (h : Spells cs k) : Text.trimChars cs = cs := by
  apply Text.trimChars_of_forall
  cases h with
  | decimal h => exact fun c hc => (h.plain (by decide) c hc).1
  | marked hmark h =>
    refine List.forall_mem_cons.2 ⟨by decide, List.forall_mem_cons.2 ⟨?_, ?_⟩⟩
    · rcases hmark with rfl | rfl <;> decide
    · exact fun c hc => (h.plain (by decide) c hc).1

/-- Behind the mark, the digits are hexadecimal. -/
theorem spells_marked_iff {mark : Char} (hmark : mark = 'x' ∨ mark = 'X') :
    Spells ('0' :: mark :: cs) k ↔ Decimal.SpellsInt 16 cs k := by
  constructor
  · intro h
    cases h with
    | decimal h =>
      obtain ⟨-, hx, hX⟩ := h.plain (by decide) mark (.tail _ (.head _))
      exact absurd hmark (not_or.2 ⟨hx, hX⟩)
    | marked _ h => exact h
  · exact .marked hmark

/-- Without the mark, the digits are decimal. -/
theorem spells_unmarked_iff
    (hunmarked : ¬∃ mark digits, (mark = 'x' ∨ mark = 'X') ∧ cs = '0' :: mark :: digits) :
    Spells cs k ↔ Decimal.SpellsInt 10 cs k := by
  constructor
  · intro h
    cases h with
    | decimal h => exact h
    | marked hmark _ => exact absurd ⟨_, _, hmark, rfl⟩ hunmarked
  · exact .decimal

/-- The integers within the range of the reader are read as they are spelled. -/
theorem readInteger_eq_ok_iff : readInteger cs = .ok k ↔
    Spells cs k ∧ -(Decimal.wholeBound : Int) ≤ k ∧ k < Decimal.wholeBound := by
  by_cases hmarked : ∃ mark digits, (mark = 'x' ∨ mark = 'X') ∧ cs = '0' :: mark :: digits
  · obtain ⟨mark, digits, hmark, rfl⟩ := hmarked
    have hread : readInteger ('0' :: mark :: digits) = Decimal.readWhole 16 digits := by
      rcases hmark with rfl | rfl <;> rfl
    rw [hread, Decimal.readWhole_eq_ok_iff (by decide) (by decide), spells_marked_iff hmark]
  · have hread : readInteger cs = Decimal.readWhole 10 cs := by
      rw [readInteger]
      · rintro digits rfl
        exact hmarked ⟨_, _, .inl rfl, rfl⟩
      · rintro digits rfl
        exact hmarked ⟨_, _, .inr rfl, rfl⟩
    rw [hread, Decimal.readWhole_eq_ok_iff (by decide) (by decide), spells_unmarked_iff hmarked]

/-- The literals of a word are the integers that it can hold. -/
theorem readWord_eq_ok_iff : readWord t cs = .ok v ↔
    ∃ k w, Spells cs k ∧ t.Holds k ∧ Scalar.wordInt t w = k ∧ v = .scalar (.word t w) := by
  rw [readWord]
  constructor
  · intro h
    cases hk : readInteger cs with
    | error e => simp only [hk, reduceCtorEq] at h
    | ok k =>
      simp only [hk] at h
      split at h
      next hrange =>
        have hholds := WordType.holds_iff_wordRange.2 hrange
        exact ⟨k, _, (readInteger_eq_ok_iff.1 hk).1, hholds, WordType.wordInt_ofInt hholds,
          (Except.ok.inj h).symm⟩
      next => cases h
  · rintro ⟨k, w, hspells, hholds, hw, rfl⟩
    have hword : BitVec.ofInt t.bits k = w :=
      WordType.wordInt_injective t ((WordType.wordInt_ofInt hholds).trans hw.symm)
    simp only [readInteger_eq_ok_iff.2 ⟨hspells, hholds.within⟩]
    rw [if_pos (WordType.holds_iff_wordRange.1 hholds), hword]

/-- A text spells one integer: with a mark it has no reading in base ten. -/
theorem Spells.unique {j : Int} (h : Spells cs j) (h' : Spells cs k) : j = k := by
  by_cases hmarked : ∃ mark digits, (mark = 'x' ∨ mark = 'X') ∧ cs = '0' :: mark :: digits
  · obtain ⟨mark, digits, hmark, rfl⟩ := hmarked
    exact ((spells_marked_iff hmark).1 h).unique (by decide) ((spells_marked_iff hmark).1 h')
  · exact ((spells_unmarked_iff hmarked).1 h).unique (by decide) ((spells_unmarked_iff hmarked).1 h')

theorem parse_word (ht : t.IsWhole) (text : String) :
    parse (.scalar (.word t)) text = readWord t (Text.trimChars text.toList) := by
  rw [parse, readWordForm]
  rcases ht.form with hform | hform <;> rw [hform]

/-- Whether the literals of a word type are exact: the texts that spell, between blanks, an integer that the
word can be, and each of them as that integer. -/
structure ReadsWord (t : WordType) (text : String) : Prop where
  succeeds : (∃ v, parse (.scalar (.word t)) text = .ok v) ↔
    ∃ k, Spells (Text.trimChars text.toList) k ∧ t.Holds k
  exact : ∀ v, parse (.scalar (.word t)) text = .ok v → ∀ k, Spells (Text.trimChars text.toList) k →
    ∃ w, v = .scalar (.word t w) ∧ Scalar.wordInt t w = k

/-- A literal is read exactly if it spells an integer that the type holds. -/
theorem readsWord (ht : t.IsWhole) (text : String) : ReadsWord t text := by
  have hparse : ∀ v, parse (.scalar (.word t)) text = .ok v ↔ ∃ k w,
      Spells (Text.trimChars text.toList) k ∧ t.Holds k ∧ Scalar.wordInt t w = k ∧
        v = .scalar (.word t w) := fun v => parse_word ht text ▸ readWord_eq_ok_iff
  constructor
  case succeeds =>
    constructor
    · rintro ⟨v, hv⟩
      obtain ⟨k, w, hspells, hholds, -⟩ := (hparse v).1 hv
      exact ⟨k, hspells, hholds⟩
    · rintro ⟨k, hspells, hholds⟩
      exact ⟨_, (hparse _).2 ⟨k, _, hspells, hholds, WordType.wordInt_ofInt hholds, rfl⟩⟩
  case exact =>
    intro v hv k hk
    obtain ⟨k', w, hspells, -, hw, rfl⟩ := (hparse v).1 hv
    exact ⟨w, rfl, hw.trans (hspells.unique hk)⟩

/-! ## Plain texts -/

theorem spells_hexText (n : Nat) : Spells (FieldValue.hexText n).toList n := by
  have htext : (FieldValue.hexText n).toList = '0' :: 'x' :: Nat.toDigits 16 n := by
    rw [FieldValue.hexText, Hex.ofNat, String.toList_append, String.toList_ofList,
      String.toList_ofList]
    rfl
  rw [htext]
  exact .marked (.inl rfl) (.unsigned (Decimal.spellsNat_toDigits (by decide) (by decide) n))

/-- The plain text of a word spells its integer. -/
theorem spells_wordText (ht : t.IsWhole) (w : BitVec t.bits) :
    Spells (FieldValue.wordText t w).toList (Scalar.wordInt t w) := by
  rcases ht.form with hform | hform
  · simp only [FieldValue.wordText, hform]
    exact .decimal (Decimal.spellsInt_toString _)
  · have hsigned : ¬t.isSigned = true := by
      revert hform
      cases t <;> decide
    simp only [FieldValue.wordText, hform, Scalar.wordInt, if_neg hsigned]
    exact spells_hexText w.toNat

theorem parse_wordText (ht : t.IsWhole) (w : BitVec t.bits) :
    parse (.scalar (.word t)) (FieldValue.wordText t w) = .ok (.scalar (.word t w)) := by
  have hspells := spells_wordText ht w
  rw [parse_word ht, hspells.trimChars_eq]
  exact readWord_eq_ok_iff.2 ⟨_, w, hspells, WordType.holds_wordInt t w, rfl, rfl⟩

theorem parse_boolText (b : Bool) :
    parse (.scalar .boolean) (FieldValue.boolText b) = .ok (.scalar (.boolean b)) := by
  cases b <;> decide

/-- Bytes are read back from the digits that show them. -/
theorem parse_hex (data : Bytes) : parse .rawBytes (Hex.encode data) = .ok (.bytes data) := by
  have hblank : ∀ c ∈ Hex.digits, Text.isBlank c = false := Hex.forall_mem_digits (by decide)
  have htrim : Text.trimChars (Hex.encode data).toList = (Hex.encode data).toList :=
    Text.trimChars_of_forall fun c hc =>
      hblank c ((Hex.isText_of_decode (Hex.decode_encode data)).digits c hc)
  simp only [parse, htrim, String.ofList_toList, Hex.decode_encode]

end Literal

/-- Whether the plain texts of the values of a type are literals: they are for all types except for
floating-point numbers and instants. -/
def FieldType.IsPlain : FieldType → Prop
  | .scalar (.word t) => t.IsWhole
  | _ => True

namespace Literal

/-- The plain text of a value is a literal that is read as the value. -/
theorem parse_display (v : FieldValue) (h : v.type.IsPlain) : parse v.type v.display = .ok v := by
  cases v with
  | scalar s =>
    cases s with
    | word t w => exact parse_wordText h w
    | boolean b => exact parse_boolText b
    | guid g =>
      simp only [FieldValue.type, Scalar.type, FieldValue.display, FieldValue.scalarText, parse,
        Guid.parse_text]
  | ansiString s => rfl
  | unicodeString s => rfl
  | bytes data => exact parse_hex data

/-- What is printed is read back, and the literals of a word type are exactly the integers that its words
can be, each read as that integer. -/
theorem literals_exact :
    (∀ v : FieldValue, v.type.IsPlain → parse v.type v.display = .ok v) ∧
      ∀ t : WordType, t.IsWhole → ∀ text : String, ReadsWord t text :=
  ⟨parse_display, fun _ ht text => readsWord ht text⟩

/-- The least integer of one byte. -/
def least : FieldValue := .scalar (.word .int8 0x80#8)

/-- The least integer is printed with its sign, and a sign may as well follow the mark of base sixteen. -/
theorem literals_exact_least :
    least.type.IsPlain ∧ least.display = "-128" ∧ parse least.type least.display = .ok least ∧
      WordType.int8.IsWhole ∧ (∃ v, parse (.scalar (.word .int8)) " 0X-80\t" = .ok v) ∧
      ¬∃ v, parse (.scalar (.word .uint8)) " 0X-80\t" = .ok v := by
  have hplain : least.type.IsPlain := ⟨by decide, by decide, by decide⟩
  have hwhole : WordType.int8.IsWhole := ⟨by decide, by decide, by decide⟩
  have hwhole' : WordType.uint8.IsWhole := ⟨by decide, by decide, by decide⟩
  have hspells : Spells (Text.trimChars " 0X-80\t".toList) (-128) :=
    .marked (.inr rfl) (.minus
      ⟨by decide, [8, 0], .cons ⟨by decide, by decide⟩ (.cons ⟨by decide, by decide⟩ .nil), rfl⟩)
  refine ⟨hplain, by decide, literals_exact.1 least hplain, hwhole, ?_, ?_⟩
  · exact (literals_exact.2 .int8 hwhole _).succeeds.2 ⟨-128, hspells, by decide, by decide⟩
  · rintro ⟨v, hv⟩
    obtain ⟨k, hk, hholds⟩ := (literals_exact.2 .uint8 hwhole' _).succeeds.1 ⟨v, hv⟩
    rw [hk.unique hspells] at hholds
    exact absurd hholds.1 (by decide)

end Literal

end EventTrace
