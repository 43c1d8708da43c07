import EventTrace.Decimal.Literal
import EventTrace.Text.Blank
import Mathlib.Data.Nat.Digits.Lemmas

/-!
# Whole numbers are read as they are spelled

What a sequence of digits in a base spells is a number of any size (`Decimal.SpellsNat`), and behind an
optional sign an integer (`Decimal.SpellsInt`). The reader goes through the digits with a bound on what it
has so far, and as that never gets smaller, it reads exactly the integers within the range of its words and
each of them as what is spelled (`Decimal.readWhole_eq_ok_iff`). The digits that a number is written with
spell it (`Decimal.spellsNat_toDigits`).
-/

namespace EventTrace.Decimal

/-- Whether a character is the digit of a number in a base, in either case. -/
def IsDigit (base : Nat) (c : Char) (d : Nat) : Prop := d < base ∧ c.toLower = Nat.digitChar d

/-- Whether some characters, at least one, are the digits of a number in a base. -/
structure SpellsNat (base : Nat) (cs : List Char) (n : Nat) : Prop where
  ne_nil : cs ≠ []
  digits : ∃ ds, List.Forall₂ (IsDigit base) cs ds ∧ Nat.ofDigits base ds.reverse = n

/-- Whether some characters are an optional sign and the digits of a number in a base. -/
inductive SpellsInt (base : Nat) : List Char → Int → Prop
  | unsigned {cs : List Char} {n : Nat} : SpellsNat base cs n → SpellsInt base cs n
  | plus {cs : List Char} {n : Nat} : SpellsNat base cs n → SpellsInt base ('+' :: cs) n
  | minus {cs : List Char} {n : Nat} : SpellsNat base cs n → SpellsInt base ('-' :: cs) (-n)

variable {base limit acc n d : Nat} {c : Char} {cs : List Char} {overflow : WholeFault}

/-! ## Digits -/

/-- The digits of a base are the hexadecimal ones that are less than it. -/
theorem digitIn?_eq_some_iff_of_le (hbase : base ≤ 16) :
    digitIn? base c = some d ↔ d < base ∧ digitIn? 16 c = some d := by
  simp only [digitIn?, Option.filter_eq_some_iff, decide_eq_true_eq]
  constructor
  · rintro ⟨h, hd⟩
    exact ⟨hd, h, Nat.lt_of_lt_of_le hd hbase⟩
  · rintro ⟨hd, h, -⟩
    exact ⟨h, hd⟩

/-- The reader takes for a digit what is one. -/
theorem digitIn?_eq_some_iff (hbase : base ≤ 16) : digitIn? base c = some d ↔ IsDigit base c d := by
  have hascii : ∀ n : Fin 128, ∀ d : Fin 16,
      digitIn? 16 (Char.ofNat n) = some d.val ↔ (Char.ofNat n).toLower = Nat.digitChar d := by
    decide +kernel
  rw [digitIn?_eq_some_iff_of_le hbase, IsDigit]
  refine and_congr_right fun hd => ?_
  by_cases hc : c.toNat < 128
  · have h := hascii ⟨c.toNat, hc⟩ ⟨d, Nat.lt_of_lt_of_le hd hbase⟩
    rwa [Char.ofNat_toNat] at h
  · have hnone : digitIn? 16 c = none := by
      simp only [digitIn?]
      rw [if_neg (by omega), if_neg (by omega), if_neg (by omega)]
      rfl
    have hupper : ¬('A'.val ≤ c.val ∧ c.val ≤ 'Z'.val) := by
      rintro ⟨-, hle⟩
      have : c.toNat ≤ 90 := hle
      omega
    have hlower : c.toLower = c := dif_neg hupper
    have hchar : ∀ d : Fin 16, (Nat.digitChar d).toNat < 128 := by decide
    rw [hnone, hlower]
    refine iff_of_false (by simp) ?_
    rintro rfl
    exact hc (hchar ⟨d, Nat.lt_of_lt_of_le hd hbase⟩)

theorem IsDigit.unique (hbase : base ≤ 16) {d' : Nat} (h : IsDigit base c d) (h' : IsDigit base c d') :
    d = d' :=
  Option.some.inj
    (((digitIn?_eq_some_iff hbase).2 h).symm.trans ((digitIn?_eq_some_iff hbase).2 h'))

/-- A digit is no blank, no sign and no mark of a base. -/
theorem IsDigit.plain (hbase : base ≤ 16) (h : IsDigit base c d) :
    Text.isBlank c = false ∧ c ≠ '+' ∧ c ≠ '-' ∧ c ≠ 'x' ∧ c ≠ 'X' := by
  obtain ⟨-, hdigit⟩ := (digitIn?_eq_some_iff_of_le hbase).1 ((digitIn?_eq_some_iff hbase).2 h)
  refine ⟨?_, ?_, ?_, ?_, ?_⟩
  · simp only [digitIn?, Option.filter_eq_some_iff] at hdigit
    have hrange : (48 ≤ c.toNat ∧ c.toNat ≤ 57) ∨ (65 ≤ c.toNat ∧ c.toNat ≤ 122) := by
      by_contra hnot
      rw [if_neg (by omega), if_neg (by omega), if_neg (by omega)] at hdigit
      cases hdigit.1
    simp only [Text.isBlank, Bool.or_eq_false_iff, Bool.and_eq_false_iff, decide_eq_false_iff_not,
      beq_eq_false_iff_ne]
    omega
  all_goals
    rintro rfl
    exact absurd (Option.isSome_of_eq_some hdigit) (by decide)

/-! ## Numbers -/

/-- The digits read so far as the number that they spell stand for them. -/
theorem ofDigits_append_pair (ds : List Nat) (acc d : Nat) :
    Nat.ofDigits base (ds ++ [d, acc]) = Nat.ofDigits base (ds ++ [acc * base + d]) := by
  simp only [Nat.ofDigits_append, Nat.ofDigits_cons, Nat.ofDigits_nil]
  ring

theorem le_ofDigits_append_singleton (hbase : 0 < base) (ds : List Nat) (acc : Nat) :
    acc ≤ Nat.ofDigits base (ds ++ [acc]) := by
  rw [Nat.ofDigits_append, Nat.ofDigits_singleton]
  exact Nat.le_add_left_of_le (Nat.le_mul_of_pos_left acc (Nat.pow_pos hbase))

/-- A digit goes over to what was read before it. -/
theorem exists_digits_cons_iff {rest : List Char} (hbase : base ≤ 16) (hc : IsDigit base c d) :
    (∃ ds, List.Forall₂ (IsDigit base) (c :: rest) ds ∧
        Nat.ofDigits base (ds.reverse ++ [acc]) = n) ↔
      ∃ ds, List.Forall₂ (IsDigit base) rest ds ∧
        Nat.ofDigits base (ds.reverse ++ [acc * base + d]) = n := by
  have hvalue : ∀ ds : List Nat, Nat.ofDigits base ((d :: ds).reverse ++ [acc]) =
      Nat.ofDigits base (ds.reverse ++ [acc * base + d]) := fun ds => by
    rw [← ofDigits_append_pair, List.reverse_cons, List.append_assoc, List.singleton_append]
  constructor
  · rintro ⟨_, hds, hn⟩
    obtain ⟨d', ds, hc', hrest, rfl⟩ := List.forall₂_cons_left_iff.1 hds
    obtain rfl : d' = d := hc'.unique hbase hc
    exact ⟨ds, hrest, (hvalue ds).symm.trans hn⟩
  · rintro ⟨ds, hrest, hn⟩
    exact ⟨d :: ds, .cons hc hrest, (hvalue ds).trans hn⟩

/-- Digits behind those read so far are read up to the limit, as what all of them spell. -/
theorem readDigits_eq_ok_iff (hpos : 0 < base) (hbase : base ≤ 16) (hacc : acc ≤ limit) :
    readDigits base limit overflow acc cs = .ok n ↔ n ≤ limit ∧
      ∃ ds, List.Forall₂ (IsDigit base) cs ds ∧ Nat.ofDigits base (ds.reverse ++ [acc]) = n := by
  induction cs generalizing acc with
  | nil =>
    simp only [readDigits, Except.ok.injEq, List.forall₂_nil_left_iff, exists_eq_left, List.reverse_nil,
      List.nil_append, Nat.ofDigits_singleton]
    constructor
    · rintro rfl
      exact ⟨hacc, rfl⟩
    · exact And.right
  | cons c rest ih =>
    rw [readDigits]
    cases hd : digitIn? base c with
    | none =>
      refine iff_of_false (by simp) ?_
      rintro ⟨-, ds, hds, -⟩
      obtain ⟨d, ds, hc, -, -⟩ := List.forall₂_cons_left_iff.1 hds
      rw [(digitIn?_eq_some_iff hbase).2 hc] at hd
      cases hd
    | some d =>
      rw [exists_digits_cons_iff hbase ((digitIn?_eq_some_iff hbase).1 hd)]
      dsimp only
      split
      next hover =>
        -- what is behind the limit stays there, whatever digits follow
        refine iff_of_false (by simp) ?_
        rintro ⟨hn, ds, -, rfl⟩
        exact absurd (Nat.le_trans (le_ofDigits_append_singleton hpos _ _) hn) (Nat.not_le.2 hover)
      next hwithin => exact ih (Nat.not_lt.1 hwithin)

theorem readDigits_zero_eq_ok_iff (hpos : 0 < base) (hbase : base ≤ 16) (hcs : cs ≠ []) :
    readDigits base limit overflow 0 cs = .ok n ↔ n ≤ limit ∧ SpellsNat base cs n := by
  rw [readDigits_eq_ok_iff hpos hbase (Nat.zero_le _)]
  simp only [Nat.ofDigits_append_zero]
  exact and_congr_right fun _ => ⟨fun h => ⟨hcs, h⟩, SpellsNat.digits⟩

/-! ## Integers -/

/-- A number is spelt with digits of its base only. -/
theorem SpellsNat.forall_isDigit (h : SpellsNat base cs n) : ∀ c ∈ cs, ∃ d, IsDigit base c d := by
  obtain ⟨ds, hds, -⟩ := h.digits
  clear h
  induction hds with
  | nil => simp
  | cons hc _ ih =>
    rw [List.forall_mem_cons]
    exact ⟨⟨_, hc⟩, ih⟩

/-- A sign spells no natural number. -/
theorem not_spellsNat_of_sign (hbase : base ≤ 16) {mark : Char} (hmark : mark = '+' ∨ mark = '-') :
    ¬SpellsNat base (mark :: cs) n := by
  intro h
  obtain ⟨d, hd⟩ := h.forall_isDigit mark (.head _)
  obtain ⟨-, hplus, hminus, -⟩ := hd.plain hbase
  rcases hmark with rfl | rfl
  · exact hplus rfl
  · exact hminus rfl

/-- Digits spell one number. -/
theorem SpellsNat.unique (hbase : base ≤ 16) {m : Nat} (h : SpellsNat base cs m)
    (h' : SpellsNat base cs n) : m = n := by
  obtain ⟨ds, hds, rfl⟩ := h.digits
  obtain ⟨ds', hds', rfl⟩ := h'.digits
  have hdigit : Relator.RightUnique (IsDigit base) := fun _ _ _ hd hd' => hd.unique hbase hd'
  rw [List.right_unique_forall₂' hdigit hds hds']

section Integers

variable {rest : List Char} {k : Int}

/-- What spells an integer has no blank and no mark of a base in it. -/
theorem SpellsInt.plain (hbase : base ≤ 16) (h : SpellsInt base cs k) :
    ∀ c ∈ cs, Text.isBlank c = false ∧ c ≠ 'x' ∧ c ≠ 'X' := by
  have hdigits : ∀ {cs : List Char} {n : Nat}, SpellsNat base cs n →
      ∀ c ∈ cs, Text.isBlank c = false ∧ c ≠ 'x' ∧ c ≠ 'X' := by
    intro cs n hn c hc
    obtain ⟨d, hd⟩ := hn.forall_isDigit c hc
    obtain ⟨hblank, -, -, hmarks⟩ := hd.plain hbase
    exact ⟨hblank, hmarks⟩
  cases h with
  | unsigned hn => exact hdigits hn
  | plus hn => exact List.forall_mem_cons.2 ⟨by decide, hdigits hn⟩
  | minus hn => exact List.forall_mem_cons.2 ⟨by decide, hdigits hn⟩

/-- Without a sign, an integer is spelt as a natural number. -/
theorem spellsInt_unsigned_iff (hplus : c ≠ '+') (hminus : c ≠ '-') :
    SpellsInt base (c :: rest) k ↔ ∃ n : Nat, SpellsNat base (c :: rest) n ∧ (n : Int) = k := by
  constructor
  · intro h
    cases h with
    | unsigned hn => exact ⟨_, hn, rfl⟩
    | plus _ => exact absurd rfl hplus
    | minus _ => exact absurd rfl hminus
  · rintro ⟨n, hn, rfl⟩
    exact .unsigned hn

/-- A plus does not change the number behind it. -/
theorem spellsInt_plus_iff (hbase : base ≤ 16) :
    SpellsInt base ('+' :: rest) k ↔ ∃ n : Nat, SpellsNat base rest n ∧ (n : Int) = k := by
  constructor
  · intro h
    cases h with
    | unsigned hn => exact absurd hn (not_spellsNat_of_sign hbase (.inl rfl))
    | plus hn => exact ⟨_, hn, rfl⟩
  · rintro ⟨n, hn, rfl⟩
    exact .plus hn

/-- A minus negates the number behind it. -/
theorem spellsInt_minus_iff (hbase : base ≤ 16) :
    SpellsInt base ('-' :: rest) k ↔ ∃ n : Nat, SpellsNat base rest n ∧ -(n : Int) = k := by
  constructor
  · intro h
    cases h with
    | unsigned hn => exact absurd hn (not_spellsNat_of_sign hbase (.inr rfl))
    | minus hn => exact ⟨_, hn, rfl⟩
  · rintro ⟨n, hn, rfl⟩
    exact .minus hn

/-- A text spells at most one integer. -/
theorem SpellsInt.unique (hbase : base ≤ 16) {j : Int} (h : SpellsInt base cs j)
    (h' : SpellsInt base cs k) : j = k := by
  cases h with
  | unsigned hn =>
    cases h' with
    | unsigned hn' => rw [hn.unique hbase hn']
    | plus _ => exact absurd hn (not_spellsNat_of_sign hbase (.inl rfl))
    | minus _ => exact absurd hn (not_spellsNat_of_sign hbase (.inr rfl))
  | plus hn =>
    obtain ⟨n', hn', rfl⟩ := (spellsInt_plus_iff hbase).1 h'
    rw [hn.unique hbase hn']
  | minus hn =>
    obtain ⟨n', hn', rfl⟩ := (spellsInt_minus_iff hbase).1 h'
    rw [hn.unique hbase hn']

/-- A sign without digits spells nothing. -/
theorem not_spellsInt_of_nil (hbase : base ≤ 16) {mark : Char} (hmark : mark = '+' ∨ mark = '-') :
    ¬SpellsInt base [mark] k := by
  intro h
  cases h with
  | unsigned hn => exact not_spellsNat_of_sign hbase hmark hn
  | plus hn => exact hn.ne_nil rfl
  | minus hn => exact hn.ne_nil rfl

theorem readWhole_unsigned (hplus : c ≠ '+') (hminus : c ≠ '-') : readWhole base (c :: rest) =
    (readDigits base (wholeBound - 1) .tooLarge 0 (c :: rest)).map Int.ofNat := by
  cases rest with
  | nil => rw [readWhole, if_neg (by simp [hplus, hminus])]
  | cons c' rest =>
    rw [readWhole]
    · simp
    · simp
    · simp [hminus]
    · simp [hplus]

theorem readWhole_plus (hrest : rest ≠ []) : readWhole base ('+' :: rest) =
    (readDigits base (wholeBound - 1) .tooLarge 0 rest).map Int.ofNat := by
  rw [readWhole]
  exact hrest

theorem readWhole_minus (hrest : rest ≠ []) : readWhole base ('-' :: rest) =
    (readDigits base wholeBound .tooSmall 0 rest).map fun n => -Int.ofNat n := by
  rw [readWhole]
  exact hrest

/-- Digits are read as the integers within range that they spell, if the limit for the magnitude is that
of the range. -/
theorem map_readDigits_eq_ok_iff (hpos : 0 < base) (hbase : base ≤ 16) (hcs : cs ≠ [])
    {signed : Nat → Int}
    (hlimit : ∀ n, n ≤ limit ↔ -(wholeBound : Int) ≤ signed n ∧ signed n < wholeBound) :
    (readDigits base limit overflow 0 cs).map signed = .ok k ↔
      (∃ n, SpellsNat base cs n ∧ signed n = k) ∧ -(wholeBound : Int) ≤ k ∧ k < wholeBound := by
  have hiff : ∀ n, readDigits base limit overflow 0 cs = .ok n ↔ n ≤ limit ∧ SpellsNat base cs n :=
    fun n => readDigits_zero_eq_ok_iff hpos hbase hcs
  constructor
  · intro h
    cases hn : readDigits base limit overflow 0 cs with
    | error e =>
      rw [hn] at h
      cases h
    | ok n =>
      rw [hn] at h
      obtain ⟨hle, hspells⟩ := (hiff n).1 hn
      obtain rfl : signed n = k := Except.ok.inj h
      exact ⟨⟨n, hspells, rfl⟩, (hlimit n).1 hle⟩
  · rintro ⟨⟨n, hspells, rfl⟩, hrange⟩
    rw [(hiff n).2 ⟨(hlimit n).2 hrange, hspells⟩]
    rfl

/-- The integers within range are read as they are spelled, and nothing else is. -/
theorem readWhole_eq_ok_iff (hpos : 0 < base) (hbase : base ≤ 16) : readWhole base cs = .ok k ↔
    SpellsInt base cs k ∧ -(wholeBound : Int) ≤ k ∧ k < wholeBound := by
  have hbound : 0 < wholeBound := wordCount_pos 127
  have hlimit : ∀ n, n ≤ wholeBound - 1 ↔
      -(wholeBound : Int) ≤ Int.ofNat n ∧ Int.ofNat n < wholeBound := by
    intro n
    rw [Int.ofNat_eq_natCast]
    omega
  rcases cs with - | ⟨c, rest⟩
  · refine iff_of_false (by simp [readWhole]) ?_
    rintro ⟨h, -⟩
    cases h with
    | unsigned hn => exact hn.ne_nil rfl
  by_cases hmark : c = '+' ∨ c = '-'
  · by_cases hrest : rest = []
    · rw [hrest, readWhole, if_pos hmark]
      exact iff_of_false (by simp) fun h => not_spellsInt_of_nil hbase hmark h.1
    rcases hmark with rfl | rfl
    · rw [readWhole_plus hrest, map_readDigits_eq_ok_iff hpos hbase hrest hlimit,
        spellsInt_plus_iff hbase]
      rfl
    · rw [readWhole_minus hrest, map_readDigits_eq_ok_iff hpos hbase hrest, spellsInt_minus_iff hbase]
      · rfl
      · intro n
        rw [Int.ofNat_eq_natCast]
        omega
  · rw [not_or] at hmark
    rw [readWhole_unsigned hmark.1 hmark.2,
      map_readDigits_eq_ok_iff hpos hbase (List.cons_ne_nil c rest) hlimit,
      spellsInt_unsigned_iff hmark.1 hmark.2]
    rfl

end Integers

/-! ## Written numbers -/

/-- One more digit behind those of a number. -/
theorem SpellsNat.append_singleton (h : SpellsNat base cs n) (hc : IsDigit base c d) :
    SpellsNat base (cs ++ [c]) (n * base + d) where
  ne_nil := by simp
  digits := by
    obtain ⟨ds, hds, rfl⟩ := h.digits
    refine ⟨ds ++ [d], List.rel_append hds (.cons hc .nil), ?_⟩
    rw [List.reverse_append, List.reverse_singleton, List.singleton_append, Nat.ofDigits_cons,
      Nat.add_comm, Nat.mul_comm]

theorem isDigit_digitChar (hbase : base ≤ 16) (hd : d < base) : IsDigit base (Nat.digitChar d) d := by
  have hlower : ∀ d : Fin 16, (Nat.digitChar d).toLower = Nat.digitChar d := by decide
  exact ⟨hd, hlower ⟨d, Nat.lt_of_lt_of_le hd hbase⟩⟩

/-- The digits that a number is written with spell it. -/
theorem spellsNat_toDigits (hlt : 1 < base) (hbase : base ≤ 16) (n : Nat) :
    SpellsNat base (Nat.toDigits base n) n := by
  induction n using Nat.strong_induction_on with
  | _ n ih =>
    by_cases hn : n < base
    · rw [Nat.toDigits_of_lt_base hn]
      exact ⟨by simp, [n], .cons (isDigit_digitChar hbase hn) .nil, Nat.ofDigits_singleton⟩
    · have hpos : 0 < n := by omega
      have hdigit := isDigit_digitChar hbase (Nat.mod_lt n (Nat.lt_of_succ_lt hlt))
      have h := (ih (n / base) (Nat.div_lt_self hpos hlt)).append_singleton hdigit
      rwa [Nat.div_add_mod', ← Nat.toDigits_of_base_le hlt (Nat.not_lt.1 hn)] at h

/-- An integer as it is written spells itself. -/
theorem spellsInt_toString (k : Int) : SpellsInt 10 (toString k).toList k := by
  have hnat : ∀ n : Nat, SpellsNat 10 (toString n).toList n := by
    intro n
    rw [Nat.toString_eq_ofList_toDigits, String.toList_ofList]
    exact spellsNat_toDigits (by decide) (by decide) n
  cases k with
  | ofNat n => exact .unsigned (hnat n)
  | negSucc n =>
    have htext : (toString (Int.negSucc n)).toList = '-' :: (toString (n + 1)).toList :=
      String.toList_append
    exact htext ▸ .minus (hnat (n + 1))

end EventTrace.Decimal
