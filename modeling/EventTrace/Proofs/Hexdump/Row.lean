import EventTrace.Hexdump.Reader
import EventTrace.Proofs.Bytes
import EventTrace.Proofs.Decimal.Whole

/-!
# Lines of hex dumps

A line of a dump is an address, numbers, a gap and characters (`Hexdump.Row`). What it has to be for the
bytes at an address (`Hexdump.Row.Shows`) is said without the way it is written: the numbers spell the
words of the bytes, with a zero where the last one lacks its second half, and they take as much room as
those of any other line. The lines of a dump are of this kind (`Hexdump.row_shows`), and reading such a line
gives the bytes back (`Hexdump.readLine_chars`).
-/

namespace EventTrace.Hexdump

variable {f : HexdumpFormat} {cs : List Char} {n : Nat} {data word : Bytes}

/-! ## Parts of lines -/

/-- Whether some characters are an address: lower-case digits, eight where those are enough. -/
structure IsAddress (n : Nat) (cs : List Char) : Prop where
  spells : Decimal.SpellsNat 16 cs n
  lower : ∀ c ∈ cs, c.isUpper = false
  wide : 8 ≤ cs.length
  short : n < 16 ^ 8 → cs.length = 8

/-- Whether some characters are the digits of a little-endian word, as many as any word has. -/
structure IsNumber (f : HexdumpFormat) (word : Bytes) (cs : List Char) : Prop where
  spells : Decimal.SpellsNat f.base cs word.toNatLE
  lower : ∀ c ∈ cs, c.isUpper = false
  length_eq : cs.length = f.digits

/-- Whether a character stands for a byte: the byte itself if it is printable, or else a point. -/
structure IsShown (b : UInt8) (c : Char) : Prop where
  printable : 0x20 ≤ b.toNat ∧ b.toNat ≤ 0x7E → c.toNat = b.toNat
  other : ¬(0x20 ≤ b.toNat ∧ b.toNat ≤ 0x7E) → c = '.'

/-- A line in parts. -/
structure Row where
  address : List Char
  numbers : List (List Char)
  /-- The spaces between the numbers and the characters. -/
  gap : Nat
  text : List Char

/-- Some bytes, with a zero behind them where the last word lacks its second half. -/
def filled (f : HexdumpFormat) (data : Bytes) : Bytes :=
  data ++ List.replicate (data.length % f.wordBytes) 0

namespace Row

def columns (r : Row) : List Char := r.numbers.flatMap (' ' :: ·)

def chars (r : Row) : List Char :=
  r.address ++ ':' :: (r.columns ++ List.replicate r.gap ' ') ++ r.text

/-- Whether the line shows some bytes, at most sixteen, of which the first has an address. -/
structure Shows (f : HexdumpFormat) (n : Nat) (data : Bytes) (r : Row) : Prop where
  address : IsAddress n r.address
  numbers : List.Forall₂ (IsNumber f) (Bytes.pieces (filled f data) f.wordBytes) r.numbers
  aligned : r.columns.length + r.gap = textColumn f
  text : List.Forall₂ IsShown data r.text

end Row

/-! ## Digits -/

@[simp] theorem length_padLeft (width : Nat) (cs : List Char) :
    (Hex.padLeft width cs).length = max width cs.length := by
  rw [Hex.padLeft, List.length_append, List.length_replicate]
  omega

variable {base : Nat}

/-- Zeros in front spell nothing. -/
theorem spellsNat_zeros (hpos : 0 < base) (h : Decimal.SpellsNat base cs n) (count : Nat) :
    Decimal.SpellsNat base (List.replicate count '0' ++ cs) n where
  ne_nil := by simp [h.ne_nil]
  digits := by
    obtain ⟨ds, hds, rfl⟩ := h.digits
    have hzeros : List.Forall₂ (Decimal.IsDigit base) (List.replicate count '0')
        (List.replicate count 0) := by
      induction count with
      | zero => exact .nil
      | succ count ih => exact .cons ⟨hpos, by decide⟩ ih
    refine ⟨List.replicate count 0 ++ ds, List.rel_append hzeros hds, ?_⟩
    rw [List.reverse_append, List.reverse_replicate, Nat.ofDigits_append_replicate_zero]

theorem spellsNat_padLeft (hlt : 1 < base) (hbase : base ≤ 16) (width n : Nat) :
    Decimal.SpellsNat base (Hex.padLeft width (Nat.toDigits base n)) n :=
  spellsNat_zeros (Nat.lt_of_succ_lt hlt) (Decimal.spellsNat_toDigits hlt hbase n) _

theorem exists_digitChar_of_mem_toDigits (hlt : 1 < base) {c : Char} (hc : c ∈ Nat.toDigits base n) :
    ∃ d < base, c = Nat.digitChar d := by
  induction n using Nat.strong_induction_on with
  | _ n ih =>
    by_cases hn : n < base
    · rw [Nat.toDigits_of_lt_base hn, List.mem_singleton] at hc
      exact ⟨n, hn, hc⟩
    · rw [Nat.toDigits_of_base_le hlt (Nat.not_lt.1 hn), List.mem_append, List.mem_singleton] at hc
      obtain hfront | hlast := hc
      · exact ih (n / base) (Nat.div_lt_self (by omega) hlt) hfront
      · exact ⟨n % base, Nat.mod_lt n (by omega), hlast⟩

theorem isUpper_of_mem_padLeft (hlt : 1 < base) (hbase : base ≤ 16) {width : Nat} :
    ∀ c ∈ Hex.padLeft width (Nat.toDigits base n), c.isUpper = false := by
  have hdigit : ∀ d : Fin 16, (Nat.digitChar d).isUpper = false := by decide
  intro c hc
  rw [Hex.padLeft, List.mem_append] at hc
  obtain hzero | hdigits := hc
  · rw [List.eq_of_mem_replicate hzero]
    decide
  · obtain ⟨d, hd, rfl⟩ := exists_digitChar_of_mem_toDigits hlt hdigits
    exact hdigit ⟨d, Nat.lt_of_lt_of_le hd hbase⟩

/-- An address is its number in eight digits or more. -/
theorem isAddress_padLeft (n : Nat) : IsAddress n (Hex.padLeft 8 (Nat.toDigits 16 n)) where
  spells := spellsNat_padLeft (by decide) (by decide) 8 n
  lower := isUpper_of_mem_padLeft (by decide) (by decide)
  wide := by
    rw [length_padLeft]
    exact Nat.le_max_left _ _
  short h := by
    rw [length_padLeft]
    exact Nat.max_eq_left ((Nat.length_toDigits_le_iff (by decide) (by decide)).2 h)

theorem base_bounds (f : HexdumpFormat) : 1 < f.base ∧ f.base ≤ 16 := by
  cases f <;> decide

theorem wordBytes_pos (f : HexdumpFormat) : 0 < f.wordBytes := by
  cases f <;> decide

theorem wordBytes_dvd_lineBytes (f : HexdumpFormat) : f.wordBytes ∣ lineBytes := by
  cases f <;> decide

/-- The digits of a number have room for every word. -/
theorem wordCount_le_pow (f : HexdumpFormat) : wordCount (8 * f.wordBytes) ≤ f.base ^ f.digits := by
  cases f <;> decide

/-- A word is its number in the digits of its format. -/
theorem isNumber_padLeft (hword : word.length = f.wordBytes) :
    IsNumber f word (Hex.padLeft f.digits (Nat.toDigits f.base word.toNatLE)) where
  spells := spellsNat_padLeft (base_bounds f).1 (base_bounds f).2 f.digits _
  lower := isUpper_of_mem_padLeft (base_bounds f).1 (base_bounds f).2
  length_eq := by
    have hlt := Nat.lt_of_lt_of_le (hword ▸ Bytes.toNatLE_lt word) (wordCount_le_pow f)
    have hdigits : 0 < f.digits := by cases f <;> decide
    rw [length_padLeft]
    exact Nat.max_eq_left ((Nat.length_toDigits_le_iff (base_bounds f).1 hdigits).2 hlt)

/-- A printable byte is shown as it is, and any other one as a dot. -/
theorem isShown_shown (b : UInt8) : IsShown b (shown b) where
  printable h := by
    have hascii : ∀ n : Fin 128, (Char.ofNat n).toNat = n := by decide
    rw [shown, if_pos h]
    exact hascii ⟨b.toNat, by omega⟩
  other h := if_neg h

/-! ## Lines as they are written -/

/-- The parts of the line that shows some bytes. -/
def row (f : HexdumpFormat) (address : Nat) (data : Bytes) : Row where
  address := Hex.padLeft 8 (Nat.toDigits 16 address)
  numbers := (data.chunks f.wordBytes).map fun word =>
    Hex.padLeft f.digits (Nat.toDigits f.base word.toNatLE)
  gap := f.columnWidth * ((lineBytes - data.length) / f.wordBytes) + 2
  text := data.map shown

theorem line_eq_chars (f : HexdumpFormat) (address : Nat) (data : Bytes) :
    line f address data = (row f address data).chars := by
  simp only [line, row, Row.chars, Row.columns, columns, filling, List.flatMap_map,
    List.replicate_add, List.append_assoc, List.cons_append]
  rfl

/-- The numbers of a line are its words, the last of which may lack its second half. -/
theorem numbers_row (f : HexdumpFormat) (address : Nat) (data : Bytes) :
    List.Forall₂ (IsNumber f) (Bytes.pieces (filled f data) f.wordBytes)
      (row f address data).numbers := by
  have hlength : data.length + data.length % f.wordBytes =
      f.wordBytes * ((data.length + f.wordBytes - 1) / f.wordBytes) := by
    cases f <;> simp only [HexdumpFormat.wordBytes] <;> omega
  have hwords := Bytes.map_chunks_zeros (wordBytes_pos f) hlength
  rw [row, filled, ← hwords, List.forall₂_map_left_iff, List.forall₂_map_right_iff, List.forall₂_same]
  intro word hword
  -- a zero in place of the missing half does not change the number
  have hfull := Bytes.length_of_mem_pieces (hwords ▸ List.mem_map.2 ⟨word, hword, rfl⟩)
  have hnumber := isNumber_padLeft hfull
  rwa [Bytes.toNatLE_append_zeros] at hnumber

theorem forall_mem_of_forall₂ {α β : Type} {r : α → β → Prop} {p : β → Prop} {as : List α}
    {bs : List β} (h : List.Forall₂ r as bs) (hp : ∀ a b, r a b → p b) : ∀ b ∈ bs, p b := by
  induction h with
  | nil => simp
  | cons hab _ ih =>
    rw [List.forall_mem_cons]
    exact ⟨hp _ _ hab, ih⟩

theorem length_flatMap_cons {width : Nat} {parts : List (List Char)} (mark : Char)
    (h : ∀ cs ∈ parts, cs.length = width) :
    (parts.flatMap (mark :: ·)).length = (width + 1) * parts.length := by
  induction parts with
  | nil => rfl
  | cons part parts ih =>
    rw [List.forall_mem_cons] at h
    rw [List.flatMap_cons, List.length_append, List.length_cons, h.1, ih h.2, List.length_cons,
      Nat.mul_succ, Nat.add_comm]

/-- The characters of a line start where those of a full one do. -/
theorem aligned_row (address : Nat) (hline : data.length ≤ lineBytes) :
    (row f address data).columns.length + (row f address data).gap = textColumn f := by
  have hdigits : ∀ cs ∈ (row f address data).numbers, cs.length = f.digits :=
    forall_mem_of_forall₂ (numbers_row f address data) fun _ _ => IsNumber.length_eq
  have hcount : (data.length + f.wordBytes - 1) / f.wordBytes +
      (lineBytes - data.length) / f.wordBytes = lineBytes / f.wordBytes := by
    rw [lineBytes] at hline ⊢
    cases f <;> simp only [HexdumpFormat.wordBytes] <;> omega
  rw [Row.columns, length_flatMap_cons ' ' hdigits, textColumn, ← hcount, row, List.length_map,
    Bytes.length_chunks, Nat.mul_add, Nat.add_assoc]
  rfl

/-- What is written for some bytes shows them. -/
theorem row_shows (f : HexdumpFormat) (address : Nat) (hline : data.length ≤ lineBytes) :
    (row f address data).Shows f address data where
  address := isAddress_padLeft address
  numbers := numbers_row f address data
  aligned := aligned_row address hline
  text := by
    rw [row, List.forall₂_map_right_iff, List.forall₂_same]
    exact fun b _ => isShown_shown b

/-! ## Reading -/

/-- Parts behind a separator each are those between separators, and an empty one in front. -/
theorem flatMap_cons_eq_intercalate (mark : Char) (parts : List (List Char)) :
    parts.flatMap (mark :: ·) = [mark].intercalate ([] :: parts) := by
  induction parts with
  | nil => rfl
  | cons part parts ih =>
    rw [List.intercalate_cons_cons, List.flatMap_cons, ih]
    cases parts with
    | nil => simp
    | cons next parts => simp [List.intercalate_cons_cons]

theorem not_mem_of_spellsNat {mark : Char} (h : Decimal.SpellsNat base cs n)
    (hmark : ∀ d < base, mark.toLower ≠ Nat.digitChar d) : mark ∉ cs := by
  intro hmem
  obtain ⟨d, hd, hdigit⟩ := h.forall_isDigit mark hmem
  exact hmark d hd hdigit

/-- What is between the spaces in front of the characters of a line are its numbers. -/
theorem numbersIn_chars {r : Row} (h : r.Shows f n data) : numbersIn f r.chars = r.numbers := by
  have haddress : ∀ c ∈ r.address, c ≠ ':' := by
    rintro c hc rfl
    exact not_mem_of_spellsNat h.address.spells (by decide) hc
  have hnumbers : ∀ cs ∈ r.numbers, cs ≠ [] ∧ ' ' ∉ cs :=
    forall_mem_of_forall₂ h.numbers fun _ _ hcs =>
      ⟨hcs.spells.ne_nil, not_mem_of_spellsNat hcs.spells (by cases f <;> decide)⟩
  have hregion : ((r.chars.dropWhile (· ≠ ':')).drop 1).take (textColumn f) =
      r.columns ++ List.replicate r.gap ' ' := by
    rw [Row.chars, List.append_assoc, List.dropWhile_append_of_pos (by simpa using haddress),
      List.cons_append, List.dropWhile_cons_of_neg (by simp), List.drop_one, List.tail_cons,
      List.take_left' (by rw [List.length_append, List.length_replicate, h.aligned])]
  -- the gap is a run of empty parts, which are left out again
  have hgap : List.replicate r.gap ' ' = (List.replicate r.gap []).flatMap (' ' :: ·) := by
    rw [List.flatMap_replicate]
    simp
  have hparts : ∀ cs ∈ [] :: (r.numbers ++ List.replicate r.gap []), ' ' ∉ cs := by
    intro cs hcs
    rw [List.mem_cons, List.mem_append] at hcs
    obtain rfl | hnumber | hempty := hcs
    · exact List.not_mem_nil
    · exact (hnumbers cs hnumber).2
    · rw [List.eq_of_mem_replicate hempty]
      exact List.not_mem_nil
  have hfilter : r.numbers.filter (· ≠ []) = r.numbers :=
    List.filter_eq_self.2 fun cs hcs => decide_eq_true (hnumbers cs hcs).1
  rw [numbersIn, hregion, Row.columns, hgap, ← List.flatMap_append, flatMap_cons_eq_intercalate,
    List.splitOn_intercalate ' ' hparts (by simp), List.filter_cons_of_neg (by simp),
    List.filter_append, hfilter]
  simp

theorem mapM_eq_some {α β : Type} {g : β → Option α} {as : List α} {bs : List β}
    (h : List.Forall₂ (fun a b => g b = some a) as bs) : bs.mapM g = some as := by
  induction h with
  | nil => rfl
  | cons hab _ ih =>
    rw [List.mapM_cons, hab, ih]
    rfl

/-- A word is read back from the digits that show it. -/
theorem readNumber_eq_some (hword : word.length = f.wordBytes) (h : IsNumber f word cs) :
    readNumber f cs = some word := by
  have hlt := hword ▸ Bytes.toNatLE_lt word
  have hread : Decimal.readDigits f.base (wordCount (8 * f.wordBytes) - 1) .tooLarge 0 cs =
      .ok word.toNatLE :=
    (Decimal.readDigits_zero_eq_ok_iff (Nat.lt_of_succ_lt (base_bounds f).1) (base_bounds f).2
      h.spells.ne_nil).2 ⟨Nat.le_sub_one_of_lt hlt, h.spells⟩
  rw [readNumber, hread]
  exact congrArg some (hword ▸ Bytes.ofNatLE_toNatLE word)

/-- Reading a line gives the bytes that it shows, up to whole words. -/
theorem readLine_chars {r : Row} (h : r.Shows f n data) : readLine f r.chars = some (filled f data) := by
  have hread : List.Forall₂ (fun word cs => readNumber f cs = some word)
      (Bytes.pieces (filled f data) f.wordBytes) r.numbers :=
    ((List.forall₂_and_left _ _).2 ⟨fun _ hword => Bytes.length_of_mem_pieces hword, h.numbers⟩).imp
      fun _ _ hcs => readNumber_eq_some hcs.1 hcs.2
  have hwhole : f.wordBytes * ((filled f data).length / f.wordBytes) = (filled f data).length := by
    rw [filled, List.length_append, List.length_replicate]
    cases f <;> simp only [HexdumpFormat.wordBytes] <;> omega
  rw [readLine, numbersIn_chars h, mapM_eq_some hread, Option.map_some, Bytes.flatten_pieces, hwhole,
    List.take_length]

end EventTrace.Hexdump
