import EventTrace.Guid.Machine
import EventTrace.Proofs.Guid.Format

/-!
# GUIDs as words

A machine that holds a GUID as numbers and bytes writes the same bytes and the same text as one that
holds its octets, and reads the same GUID from both. No text is cut where it cannot be
(`Machine.GuidWords.parse_eq`). So bytes and texts are faithful (`Guid.registry_format`).
-/

namespace EventTrace

namespace Machine

variable {cs front back : List Char} {octets : Bytes}

/-! ## Cutting texts -/

theorem byteLength_cons (c : Char) (cs : List Char) :
    byteLength (c :: cs) = c.utf8Size + byteLength cs := rfl

theorem byteLength_append (front back : List Char) :
    byteLength (front ++ back) = byteLength front + byteLength back := by
  induction front with
  | nil => exact (Nat.zero_add _).symm
  | cons c front ih => rw [List.cons_append, byteLength_cons, byteLength_cons, ih, Nat.add_assoc]

theorem skipBytes_append (front back : List Char) :
    skipBytes (byteLength front) (front ++ back) = some back := by
  induction front with
  | nil => rw [List.nil_append, byteLength, skipBytes]
  | cons c front ih =>
    obtain ⟨size, hsize⟩ := Nat.exists_eq_succ_of_ne_zero c.utf8Size_pos.ne'
    rw [byteLength_cons, hsize, Nat.succ_add, List.cons_append, skipBytes, if_pos (by omega), hsize]
    rwa [show size + byteLength front + 1 - size.succ = byteLength front by omega]

theorem takeBytes_append (front back : List Char) :
    takeBytes (byteLength front) (front ++ back) = some front := by
  induction front with
  | nil => rw [List.nil_append, byteLength, takeBytes]
  | cons c front ih =>
    obtain ⟨size, hsize⟩ := Nat.exists_eq_succ_of_ne_zero c.utf8Size_pos.ne'
    rw [byteLength_cons, hsize, Nat.succ_add, List.cons_append, takeBytes, if_pos (by omega), hsize,
      show size + byteLength front + 1 - size.succ = byteLength front by omega, ih]
    rfl

/-- A text is cut between whole characters. -/
theorem cut_append (front cs back : List Char) :
    cut (front ++ (cs ++ back)) (byteLength front) (byteLength front + byteLength cs) = some cs := by
  have hcount : sub (byteLength front + byteLength cs) (byteLength front) = some (byteLength cs) := by
    rw [sub, if_pos (by omega), Nat.add_sub_cancel_left]
  rw [cut, hcount, skipBytes_append]
  exact takeBytes_append cs back

theorem byteLength_of_digits (h : ∀ c ∈ cs, c ∈ Hex.digits) : byteLength cs = cs.length := by
  have hall : ∀ c ∈ Hex.digits, c.utf8Size = 1 := Hex.forall_mem_digits (by decide)
  induction cs with
  | nil => rfl
  | cons c cs ih =>
    obtain ⟨hc, hcs⟩ := List.forall_mem_cons.1 h
    rw [byteLength_cons, hall c hc, ih hcs, List.length_cons, Nat.add_comm]

/-! ## Reading numbers -/

/-- The number that bytes make of another one which stands before them. -/
def extendNat (n : Nat) (data : Bytes) : Nat := data.foldl (fun n b => b.toNat + 256 * n) n

theorem extendNat_cons (n : Nat) (b : UInt8) (data : Bytes) :
    extendNat n (b :: data) = extendNat (b.toNat + 256 * n) data := rfl

theorem le_extendNat (n : Nat) (data : Bytes) : n ≤ extendNat n data := by
  induction data generalizing n with
  | nil => exact Nat.le_refl n
  | cons b data ih =>
    have htail := ih (b.toNat + 256 * n)
    rw [extendNat_cons]
    omega

theorem extendNat_zero (data : Bytes) : extendNat 0 data = Bytes.toNatLE data.reverse := by
  have hfold : ∀ data : Bytes,
      Bytes.toNatLE data = data.foldr (fun b n => b.toNat + 256 * n) 0 := by
    intro data
    induction data with
    | nil => rfl
    | cons b data ih => rw [Bytes.toNatLE, List.foldr_cons, ih]
  rw [hfold, List.foldr_reverse]
  rfl

theorem digitIn?_of_mem {c : Char} (h : c ∈ Hex.digits) :
    Decimal.digitIn? 16 c = Hex.charValue? c := by
  have hall : ∀ c ∈ Hex.digits, Decimal.digitIn? 16 c = Hex.charValue? c :=
    Hex.forall_mem_digits (by decide)
  exact hall c h

theorem readDigits_cons {limit n v : Nat} {overflow : Decimal.WholeFault} {c : Char}
    (h : Hex.charValue? c = some v) (hlimit : n * 16 + v ≤ limit) :
    Decimal.readDigits 16 limit overflow n (c :: cs) =
      Decimal.readDigits 16 limit overflow (n * 16 + v) cs := by
  rw [Decimal.readDigits, digitIn?_of_mem (Hex.mem_digits_of_charValue? h), h]
  exact if_neg (Nat.not_lt.2 hlimit)

theorem charValue?_lt {c : Char} {v : Nat} (h : Hex.charValue? c = some v) : v < 16 := by
  obtain ⟨n, hn, -⟩ := Hex.charValue?_of_mem (Hex.mem_digits_of_charValue? h)
  obtain rfl : n.val = v := Option.some.inj (hn.symm.trans h)
  exact n.isLt

/-- Digits are read as the number that their octets spell, if it is within the limit. -/
theorem readDigits_of_readOctets {limit n : Nat} {overflow : Decimal.WholeFault}
    (h : Guid.readOctets cs = some octets) (hlimit : extendNat n octets ≤ limit) :
    Decimal.readDigits 16 limit overflow n cs = .ok (extendNat n octets) := by
  fun_induction Guid.readOctets cs generalizing octets n with
  | case1 =>
    cases h
    rfl
  | case2 => cases h
  | case3 high low rest vhigh vlow hlow hhigh ih =>
    obtain ⟨tail, htail, rfl⟩ := Option.map_eq_some_iff.1 h
    have hhigh16 := charValue?_lt hhigh
    have hlow16 := charValue?_lt hlow
    have hbyte : (UInt8.ofNat (16 * vhigh + vlow)).toNat + 256 * n = (n * 16 + vhigh) * 16 + vlow := by
      rw [UInt8.toNat_ofNat']
      omega
    rw [extendNat_cons, hbyte] at hlimit ⊢
    have hle := le_extendNat ((n * 16 + vhigh) * 16 + vlow) tail
    rw [readDigits_cons hhigh (by omega), readDigits_cons hlow (by omega)]
    exact ih htail hlimit
  | case4 => cases h

/-- A group is one number, with its octets from high to low. -/
theorem readHex_of_readOctets (h : Guid.readOctets cs = some octets) (hne : cs ≠ []) :
    readHex (8 * octets.length) cs = some (Bytes.toNatLE octets.reverse) := by
  obtain ⟨hdigits, -⟩ := Guid.of_readOctets h
  have hlt := Bytes.toNatLE_lt octets.reverse
  rw [List.length_reverse] at hlt
  have hread : Decimal.readDigits 16 (wordCount (8 * octets.length) - 1) .tooLarge 0 cs =
      .ok (extendNat 0 octets) :=
    readDigits_of_readOctets h (by rw [extendNat_zero]; omega)
  rw [extendNat_zero] at hread
  -- no digit is a plus
  have hplus : ∀ rest, cs ≠ '+' :: rest := by
    rintro rest rfl
    exact absurd (hdigits '+' List.mem_cons_self) (by decide)
  unfold readHex
  split
  · exact (hplus _ rfl).elim
  · simp only [List.isEmpty_eq_false_iff.2 hne, Bool.false_eq_true, if_false, hread]
    rfl

/-! ## Printing numbers -/

theorem toUpper_digitChar {n : Nat} (h : n < 16) : (Nat.digitChar n).toUpper = Hex.upperDigit n := by
  have hall : ∀ n : Fin 16, (Nat.digitChar n).toUpper = Hex.upperDigit n := by decide
  exact hall ⟨n, h⟩

theorem upperHex_of_lt {width n : Nat} (h : n < 16) :
    upperHex (width + 1) n = List.replicate width '0' ++ [Hex.upperDigit n] := by
  rw [upperHex, Nat.toDigits_of_lt_base h, List.map_singleton, toUpper_digitChar h]
  rfl

/-- One digit more is the lowest one. -/
theorem upperHex_succ (width n : Nat) :
    upperHex (width + 2) n = upperHex (width + 1) (n / 16) ++ [Hex.upperDigit (n % 16)] := by
  by_cases hn : n < 16
  · rw [upperHex_of_lt hn, Nat.div_eq_of_lt hn, Nat.mod_eq_of_lt hn, upperHex_of_lt (by decide),
      List.replicate_succ']
    rfl
  · rw [upperHex, Nat.toDigits_of_base_le (by decide) (Nat.not_lt.1 hn), List.map_append,
      List.map_singleton, toUpper_digitChar (Nat.mod_lt n (by decide)), Hex.padLeft, upperHex,
      Hex.padLeft, List.length_append, List.length_singleton, List.append_assoc]
    congr 2
    omega

/-- The digits of a number are those of its bytes, the greatest first. -/
theorem upperHex_toNatLE : ∀ data : Bytes, data ≠ [] →
    upperHex (2 * data.length) (Bytes.toNatLE data) = Guid.spell data.reverse
  | [], hne => absurd rfl hne
  | [b], _ => by
    have hb : b.toNat < 256 := b.toNat_lt
    rw [Bytes.toNatLE, Bytes.toNatLE, List.length_singleton, Nat.mul_zero, Nat.add_zero, Nat.mul_one,
      upperHex_succ, upperHex_of_lt (by omega)]
    rfl
  | b :: b' :: data, _ => by
    have hb : b.toNat < 256 := b.toNat_lt
    have ih := upperHex_toNatLE (b' :: data) (List.cons_ne_nil _ _)
    rw [List.length_cons, Bytes.toNatLE]
    generalize hn : Bytes.toNatLE (b' :: data) = n at ih ⊢
    have hhigh : (b.toNat + 256 * n) / 16 / 16 = n := by omega
    have hmiddle : (b.toNat + 256 * n) / 16 % 16 = b.toNat / 16 := by omega
    have hlow : (b.toNat + 256 * n) % 16 = b.toNat % 16 := by omega
    rw [List.length_cons] at ih ⊢
    rw [show 2 * (data.length + 1 + 1) = 2 * data.length + 2 + 2 by omega, upperHex_succ,
      upperHex_succ, hhigh, hmiddle, hlow, List.reverse_cons, Guid.spell_append, ← ih, List.append_assoc]
    rfl

namespace GuidWords

variable {g : GuidWords} {groups : List (List Char)}

/-! ## Bytes -/

def ofGuid (g : Guid) : GuidWords := ofBytes g.toBytes g.length_toBytes

theorem toNatLE_lt_of_length {piece : Bytes} (width : Nat) (h : piece.length = width) :
    Bytes.toNatLE piece < wordCount (8 * width) :=
  h ▸ Bytes.toNatLE_lt piece

theorem toNat_data1 (data : Bytes) (h : data.length = 16) :
    (ofBytes data h).data1.toNat = Bytes.toNatLE (data.take 4) :=
  UInt32.toNat_ofNat_of_lt' (toNatLE_lt_of_length 4 (by simp [h]))

theorem toNat_data2 (data : Bytes) (h : data.length = 16) :
    (ofBytes data h).data2.toNat = Bytes.toNatLE ((data.drop 4).take 2) :=
  UInt16.toNat_ofNat_of_lt' (toNatLE_lt_of_length 2 (by simp [h]))

theorem toNat_data3 (data : Bytes) (h : data.length = 16) :
    (ofBytes data h).data3.toNat = Bytes.toNatLE ((data.drop 6).take 2) :=
  UInt16.toNat_ofNat_of_lt' (toNatLE_lt_of_length 2 (by simp [h]))

/-- Sixteen bytes are written again by the identifier they make. -/
theorem toBytes_ofBytes (data : Bytes) (h : data.length = 16) : (ofBytes data h).toBytes = data := by
  have hnumber : ∀ (piece : Bytes) (width : Nat), piece.length = width →
      Bytes.ofNatLE width (Bytes.toNatLE piece) = piece := by
    rintro piece width rfl
    exact Bytes.ofNatLE_toNatLE piece
  rw [toBytes, toNat_data1, toNat_data2, toNat_data3, hnumber _ 4 (by simp [h]),
    hnumber _ 2 (by simp [h]), hnumber _ 2 (by simp [h])]
  match data, h with
  | [_, _, _, _, _, _, _, _, _, _, _, _, _, _, _, _], _ => rfl

theorem toNatLE_ofNatLE_of_lt {width n : Nat} (h : n < wordCount (8 * width)) :
    Bytes.toNatLE (Bytes.ofNatLE width n) = n :=
  (Bytes.toNatLE_ofNatLE width n).trans (Nat.mod_eq_of_lt h)

/-- The parts of sixteen bytes. -/
theorem parts_append {a b c d : Bytes} (ha : a.length = 4) (hb : b.length = 2) (hc : c.length = 2) :
    (a ++ (b ++ (c ++ d))).take 4 = a ∧ ((a ++ (b ++ (c ++ d))).drop 4).take 2 = b ∧
      ((a ++ (b ++ (c ++ d))).drop 6).take 2 = c ∧ (a ++ (b ++ (c ++ d))).drop 8 = d := by
  have hbehind1 : (a ++ (b ++ (c ++ d))).drop 4 = b ++ (c ++ d) := List.drop_left' ha
  have hbehind2 : (a ++ (b ++ (c ++ d))).drop 6 = c ++ d := by
    rw [← List.append_assoc]
    exact List.drop_left' (by rw [List.length_append, ha, hb])
  have hbehind3 : (a ++ (b ++ (c ++ d))).drop 8 = d := by
    rw [← List.append_assoc, ← List.append_assoc]
    exact List.drop_left' (by rw [List.length_append, List.length_append, ha, hb, hc])
  rw [hbehind1, hbehind2, hbehind3]
  exact ⟨List.take_left' ha, List.take_left' hb, List.take_left' hc, rfl⟩

theorem ofBytes_eq {data : Bytes} (h : data.length = 16) (hdata : g.toBytes = data) :
    ofBytes data h = g := by
  obtain ⟨data1, data2, data3, data4, size⟩ := g
  obtain ⟨hfirst, hsecond, hthird, hrest⟩ := parts_append (Bytes.length_ofNatLE 4 data1.toNat)
    (Bytes.length_ofNatLE 2 data2.toNat) (Bytes.length_ofNatLE 2 data3.toNat) (d := data4)
  simp only [toBytes, List.append_assoc] at hdata
  rw [hdata] at hfirst hsecond hthird hrest
  rw [ofBytes, GuidWords.mk.injEq, hfirst, hsecond, hthird, hrest,
    toNatLE_ofNatLE_of_lt data1.toNat_lt, toNatLE_ofNatLE_of_lt data2.toNat_lt,
    toNatLE_ofNatLE_of_lt data3.toNat_lt]
  exact ⟨UInt32.ofNat_toNat, UInt16.ofNat_toNat, UInt16.ofNat_toNat, rfl⟩

theorem ofBytes_toBytes (g : GuidWords) : ofBytes g.toBytes g.length_toBytes = g :=
  ofBytes_eq g.length_toBytes rfl

/-! ## Texts -/

theorem octetGroups_toBytes (g : Guid) : g.octetGroups =
    [(g.toBytes.take 4).reverse, ((g.toBytes.drop 4).take 2).reverse,
      ((g.toBytes.drop 6).take 2).reverse, (g.toBytes.drop 8).take 2, g.toBytes.drop 10] := by
  obtain ⟨octets, hsize⟩ := g
  match octets, hsize with
  | [_, _, _, _, _, _, _, _, _, _, _, _, _, _, _, _], _ => rfl

/-- Words and octets show the same text. -/
theorem textChars_ofGuid (g : Guid) : (ofGuid g).textChars = g.textChars := by
  have hnumber : ∀ (width : Nat) (piece : Bytes), piece.length = width → 0 < width →
      upperHex (2 * width) (Bytes.toNatLE piece) = Guid.spell piece.reverse := by
    rintro width piece rfl hpos
    exact upperHex_toNatLE piece (List.length_pos_iff.1 hpos)
  have hpairs : ∀ data : Bytes, (data.flatMap fun b => upperHex 2 b.toNat) = Guid.spell data := by
    intro data
    rw [Guid.spell]
    congr 1
    funext b
    exact upperHex_toNatLE [b] (List.cons_ne_nil _ _) |>.trans (List.append_nil _)
  have hsize := g.length_toBytes
  rw [Guid.textChars_eq, octetGroups_toBytes]
  simp only [textChars, ofGuid, toNat_data1, toNat_data2, toNat_data3, hpairs]
  rw [hnumber 4 _ (by simp [hsize]) (by decide), hnumber 2 _ (by simp [hsize]) (by decide),
    hnumber 2 _ (by simp [hsize]) (by decide)]
  simp [ofBytes, Guid.hyphenated]

/-! ## Reading -/

/-- Between two braces is where a text can be cut. -/
theorem cut_braced (inner : List Char) :
    (sub (byteLength ('\x7b' :: inner ++ ['\x7d'])) 1).bind (cut ('\x7b' :: inner ++ ['\x7d']) 1) =
      some inner := by
  have hlength : byteLength ('\x7b' :: inner ++ ['\x7d']) = 1 + byteLength inner + 1 := by
    rw [List.cons_append, byteLength_cons, byteLength_append, ← Nat.add_assoc]
    rfl
  rw [hlength, sub, if_pos (by omega), Nat.add_sub_cancel, Option.bind_some]
  exact cut_append ['\x7b'] inner ['\x7d']

/-- Slicing off the wrapping never cuts a character, and gives what unwrapping gives. -/
theorem unwrap_eq (cs : List Char) : unwrap cs = some (Guid.unwrap cs) := by
  rw [unwrap, Guid.unwrap]
  cases hopen : cs.head? == some '\x7b' with
  | false => cases cs.getLast? == some '\x7d' <;> rfl
  | true =>
    cases hclose : cs.getLast? == some '\x7d' with
    | false => rfl
    | true =>
      obtain ⟨inner, rfl⟩ := Guid.exists_braced (beq_iff_eq.1 hopen) (beq_iff_eq.1 hclose)
      obtain ⟨stop, hstop, hcut⟩ := Option.bind_eq_some_iff.1 (cut_braced inner)
      simp only [hstop, hcut, Option.bind_eq_bind, Option.bind_some, Guid.drop_dropLast_braced]
      rfl

/-- A group has its length and hexadecimal digits only. -/
theorem isGroup_iff {length : Nat} :
    isGroup length cs = true ↔ cs.length = length ∧ ∀ c ∈ cs, c ∈ Hex.digits := by
  have hbytes : (cs.flatMap String.utf8EncodeChar).all (fun b => (Hex.digitValue? b.toNat).isSome) = true ↔
      ∀ c ∈ cs, c ∈ Hex.digits := by
    rw [List.all_eq_true]
    constructor
    · intro h c hc
      exact Hex.mem_digits fun b hb => h b (List.mem_flatMap.2 ⟨c, hc, hb⟩)
    · intro h b hb
      obtain ⟨c, hc, hb⟩ := List.mem_flatMap.1 hb
      rw [Hex.utf8EncodeChar_of_mem (h c hc), List.mem_singleton] at hb
      obtain ⟨n, hn, -⟩ := Hex.digitValue?_code (h c hc)
      rw [hb, hn]
      rfl
  rw [isGroup, Bool.and_eq_true, decide_eq_true_eq, hbytes]
  constructor
  · rintro ⟨hlength, hdigits⟩
    exact ⟨byteLength_of_digits hdigits ▸ hlength, hdigits⟩
  · rintro ⟨hlength, hdigits⟩
    exact ⟨(byteLength_of_digits hdigits).trans hlength, hdigits⟩

/-- Pairs of digits are read wherever they stand behind other digits. -/
theorem readPairs_of_readOctets (front : List Char) (hfront : ∀ c ∈ front, c ∈ Hex.digits)
    (h : Guid.readOctets cs = some octets) :
    readPairs (front ++ cs) front.length octets.length = some (some octets) := by
  fun_induction Guid.readOctets cs generalizing front octets with
  | case1 =>
    cases h
    rfl
  | case2 => cases h
  | case3 high low rest vhigh vlow hlow hhigh ih =>
    obtain ⟨tail, htail, rfl⟩ := Option.map_eq_some_iff.1 h
    have hpair : ∀ c ∈ [high, low], c ∈ Hex.digits := by
      simp [Hex.mem_digits_of_charValue? hhigh, Hex.mem_digits_of_charValue? hlow]
    have hcut : cut (front ++ high :: low :: rest) front.length (front.length + 2) =
        some [high, low] := by
      have hcut := cut_append front [high, low] rest
      rwa [byteLength_of_digits hfront, byteLength_of_digits hpair] at hcut
    have hone : Guid.readOctets [high, low] = some [UInt8.ofNat (16 * vhigh + vlow)] := by
      simp [Guid.readOctets, hhigh, hlow]
    generalize UInt8.ofNat (16 * vhigh + vlow) = b at hone ⊢
    have hbyte : readHex 8 [high, low] = some b.toNat :=
      readHex_of_readOctets hone (List.cons_ne_nil _ _)
    have hbehind : ∀ c ∈ front ++ [high, low], c ∈ Hex.digits := fun c hc =>
      (List.mem_append.1 hc).elim (hfront c) (hpair c)
    have hlater := ih (front ++ [high, low]) hbehind htail
    rw [List.append_assoc, List.length_append] at hlater
    have hrest : readPairs (front ++ high :: low :: rest) (front.length + 2) tail.length =
        some (some tail) := hlater
    rw [List.length_cons, readPairs, hcut, Option.bind_eq_bind, Option.bind_some, hbyte]
    simp only [Option.bind_eq_bind, hrest, Option.bind_some, UInt8.ofNat_toNat]
    rfl
  | case4 => cases h

/-- The numbers of a GUID spell its octets, the greatest first. -/
theorem ofGuid_mk {a b c d : Bytes} (ha : a.length = 4) (hb : b.length = 2) (hc : c.length = 2)
    (hd : d.length = 8) (hsize : (a ++ (b ++ (c ++ d))).length = 16) :
    ofGuid ⟨a ++ (b ++ (c ++ d)), hsize⟩ =
      ⟨UInt32.ofNat (Bytes.toNatLE a.reverse), UInt16.ofNat (Bytes.toNatLE b.reverse),
        UInt16.ofNat (Bytes.toNatLE c.reverse), d, hd⟩ := by
  obtain ⟨hfirst, hsecond, hthird, hrest⟩ := parts_append ha hb hc (d := d)
  have hwire : Guid.wireOrder (a ++ (b ++ (c ++ d))) =
      a.reverse ++ (b.reverse ++ (c.reverse ++ d)) := by
    simp only [Guid.wireOrder, hfirst, hsecond, hthird, hrest, List.append_assoc]
  obtain ⟨hfirst', hsecond', hthird', hrest'⟩ := parts_append (List.length_reverse.trans ha)
    (List.length_reverse.trans hb) (List.length_reverse.trans hc) (d := d)
  simp only [ofGuid, Guid.toBytes, ofBytes, hwire, hfirst', hsecond', hthird', hrest']

/-- A group of digits is a number, which its octets spell. -/
theorem exists_readHex (width : Nat) (hlength : cs.length = 2 * width) (hpos : 0 < width)
    (hdigits : ∀ c ∈ cs, c ∈ Hex.digits) :
    ∃ octets, Guid.readOctets cs = some octets ∧ octets.length = width ∧
      readHex (8 * width) cs = some (Bytes.toNatLE octets.reverse) := by
  obtain ⟨octets, hoctets, -⟩ := Guid.exists_readOctets cs (by omega) hdigits
  have hwidth : octets.length = width := by
    have htwice := (Guid.of_readOctets hoctets).2
    omega
  have hread := readHex_of_readOctets hoctets (List.ne_nil_of_length_pos (by omega))
  rw [hwidth] at hread
  exact ⟨octets, hoctets, hwidth, hread⟩

/-- Groups of digits in the sizes of the format are read as what they spell. -/
theorem exists_readGroups (hsizes : groups.map List.length = [8, 4, 4, 4, 12])
    (hdigits : ∀ group ∈ groups, ∀ c ∈ group, c ∈ Hex.digits) :
    ∃ g : Guid, Guid.readOctets groups.flatten = some g.octets ∧
      readGroups groups = some (some (ofGuid g)) := by
  simp only [List.map_eq_cons_iff, List.map_eq_nil_iff] at hsizes
  obtain ⟨a, _, rfl, ha, b, _, rfl, hb, c, _, rfl, hc, d, _, rfl, hd, e, _, rfl, he, rfl⟩ := hsizes
  have hgroups : isGroup 8 a && isGroup 4 b && isGroup 4 c && isGroup 4 d && isGroup 12 e := by
    simp only [Bool.and_eq_true, isGroup_iff, ha, hb, hc, hd, he, true_and]
    simpa [and_assoc] using hdigits
  simp only [List.forall_mem_cons] at hdigits
  obtain ⟨ha', hb', hc', hd', he', -⟩ := hdigits
  obtain ⟨o1, h1, hlength1, hdata1⟩ := exists_readHex 4 ha (by decide) ha'
  obtain ⟨o2, h2, hlength2, hdata2⟩ := exists_readHex 2 hb (by decide) hb'
  obtain ⟨o3, h3, hlength3, hdata3⟩ := exists_readHex 2 hc (by decide) hc'
  have htail : ∀ x ∈ d ++ e, x ∈ Hex.digits := fun x hx => (List.mem_append.1 hx).elim (hd' x) (he' x)
  obtain ⟨o4, h4, hlength4, -⟩ := exists_readHex 8
    (by rw [List.length_append, hd, he]) (by decide) htail
  have hdata4 := readPairs_of_readOctets [] (by simp) h4
  rw [hlength4] at hdata4
  have hsize : (o1 ++ (o2 ++ (o3 ++ o4))).length = 16 := by
    simp only [List.length_append, hlength1, hlength2, hlength3, hlength4]
  refine ⟨⟨_, hsize⟩, ?_, ?_⟩
  · simp only [List.flatten_cons, List.flatten_nil, List.append_nil, Guid.readOctets_append h1,
      Guid.readOctets_append h2, Guid.readOctets_append h3, h4, Option.map_some]
  · rw [readGroups, if_pos hgroups, hdata1, hdata2, hdata3, ofGuid_mk hlength1 hlength2 hlength3 hlength4]
    simp only [List.nil_append, List.length_nil] at hdata4
    simp only [hdata4, Option.bind_eq_bind, Option.bind_some, dif_pos hlength4]
    rfl

/-- Groups of other lengths or with other characters are refused, and stop nothing. -/
theorem readGroups_of_not (h : ¬(groups.map List.length = [8, 4, 4, 4, 12] ∧
    ∀ group ∈ groups, ∀ c ∈ group, c ∈ Hex.digits)) : readGroups groups = some none := by
  unfold readGroups
  split
  · rename_i a b c d e
    rw [if_neg]
    simp only [Bool.and_eq_true, isGroup_iff]
    rintro ⟨⟨⟨⟨⟨ha, ha'⟩, hb, hb'⟩, hc, hc'⟩, hd, hd'⟩, he, he'⟩
    exact h ⟨by simp [ha, hb, hc, hd, he], by simpa using ⟨ha', hb', hc', hd', he'⟩⟩
  · rfl

/-- What the groups of a text in the format are split into. -/
theorem splitOn_hyphenated (hsizes : groups.map List.length = [8, 4, 4, 4, 12])
    (hdigits : ∀ group ∈ groups, ∀ c ∈ group, c ∈ Hex.digits) :
    (Guid.hyphenated groups).splitOn '-' = groups := by
  refine List.splitOn_intercalate '-' (fun group hgroup hmem => ?_) ?_
  · exact absurd (hdigits group hgroup '-' hmem) (by decide)
  · rintro rfl
    cases hsizes

/-- No text stops the machine, and it reads what is read without cutting. -/
theorem parse_eq (s : String) : parse s = some ((Guid.parse s).map ofGuid) := by
  rw [parse, unwrap_eq]
  cases hinner : Guid.unwrap (Text.trimChars s.toList) with
  | none =>
    rw [Guid.parse, hinner]
    rfl
  | some inner =>
    by_cases hgroups : (inner.splitOn '-').map List.length = [8, 4, 4, 4, 12] ∧
        ∀ group ∈ inner.splitOn '-', ∀ c ∈ group, c ∈ Hex.digits
    · obtain ⟨hsizes, hdigits⟩ := hgroups
      have hjoined : Guid.hyphenated (inner.splitOn '-') = inner := List.intercalate_splitOn '-'
      obtain ⟨g, hoctets, hread⟩ := exists_readGroups hsizes hdigits
      have hparse : Guid.parse s = .ok g := Guid.parse_eq_ok_iff.2 ⟨_,
        ⟨hsizes, hdigits, hjoined.symm ▸ Guid.wrapped_of_unwrap hinner⟩, hoctets⟩
      simp only [Option.bind_eq_bind, Option.bind_some, hread, hparse]
      rfl
    · simp only [Option.bind_eq_bind, Option.bind_some, readGroups_of_not hgroups]
      cases hparse : Guid.parse s with
      | error e =>
        rw [Guid.eq_of_parse_eq_error hparse]
        rfl
      | ok g =>
        obtain ⟨groups, htext, -⟩ := Guid.parse_eq_ok_iff.1 hparse
        obtain rfl : Guid.hyphenated groups = inner :=
          Option.some.inj (htext.unwrap_eq.symm.trans hinner)
        rw [splitOn_hyphenated htext.sizes htext.digits] at hgroups
        exact absurd ⟨htext.sizes, htext.digits⟩ hgroups

end GuidWords

end Machine

namespace Guid

open Machine (GuidWords)

/-- The printed text spells the bytes on the wire in a fixed order. -/
theorem textChars_toBytes (g : Guid) : g.textChars = hyphenated
    ([[3, 2, 1, 0], [5, 4], [7, 6], [8, 9], [10, 11, 12, 13, 14, 15]].map fun places =>
      spell (places.map fun place => g.toBytes.getD place 0)) := by
  obtain ⟨octets, hsize⟩ := g
  match octets, hsize with
  | [_, _, _, _, _, _, _, _, _, _, _, _, _, _, _, _], _ => rfl

/-- A text is read exactly if it is groups of digits in the format, and what was read is printed as
these digits in upper case; no text stops a machine, which reads the same. What was printed is read
back. Bytes and GUIDs are in bijection, also where a machine holds GUIDs as numbers, and the text spells
the bytes in the order of the format. -/
theorem registry_format :
    (∀ s, ((∃ g, parse s = .ok g) ↔ ∃ groups, IsText s groups) ∧
      (∀ groups g, IsText s groups → parse s = .ok g →
        g.textChars = hyphenated (groups.map (·.map Char.toUpper))) ∧
      GuidWords.parse s = some ((parse s).map GuidWords.ofGuid)) ∧
    (∀ g : Guid, parse g.text = .ok g ∧ ofBytes g.toBytes g.length_toBytes = g ∧
      g.textChars = hyphenated
        ([[3, 2, 1, 0], [5, 4], [7, 6], [8, 9], [10, 11, 12, 13, 14, 15]].map fun places =>
          spell (places.map fun place => g.toBytes.getD place 0)) ∧
      (GuidWords.ofGuid g).textChars = g.textChars ∧ (GuidWords.ofGuid g).toBytes = g.toBytes) ∧
    (∀ (data : Bytes) (h : data.length = 16), (ofBytes data h).toBytes = data ∧
      GuidWords.ofBytes data h = GuidWords.ofGuid (ofBytes data h) ∧
      (GuidWords.ofBytes data h).toBytes = data) ∧
    ∀ g : GuidWords, GuidWords.ofBytes g.toBytes g.length_toBytes = g := by
  refine ⟨fun s => ⟨⟨?_, ?_⟩, fun groups g htext hparse => ?_, GuidWords.parse_eq s⟩, fun g =>
    ⟨parse_text g, ofBytes_toBytes g, textChars_toBytes g, GuidWords.textChars_ofGuid g,
      GuidWords.toBytes_ofBytes _ _⟩, fun data h =>
    ⟨toBytes_ofBytes data h, ?_, GuidWords.toBytes_ofBytes data h⟩, GuidWords.ofBytes_toBytes⟩
  · rintro ⟨g, hparse⟩
    obtain ⟨groups, htext, -⟩ := parse_eq_ok_iff.1 hparse
    exact ⟨groups, htext⟩
  · rintro ⟨groups, htext⟩
    obtain ⟨g, hparse, -⟩ := htext.exists_parse
    exact ⟨g, hparse⟩
  · obtain ⟨g', hparse', htext'⟩ := htext.exists_parse
    obtain rfl : g' = g := Except.ok.inj (hparse'.symm.trans hparse)
    exact htext'
  · simp only [GuidWords.ofGuid, toBytes_ofBytes]

/-- A GUID in lower case and in braces, with blanks around it. -/
def braced : String := " \x7b199fe037-2b82-40a9-82ac-e1d46c792b99\x7d\t"

def bracedGroups : List (List Char) :=
  ["199fe037".toList, "2b82".toList, "40a9".toList, "82ac".toList, "e1d46c792b99".toList]

/-- An identifier in braces, with small letters, among blanks. -/
theorem registry_format_braced : IsText braced bracedGroups ∧
    ∃ g, parse braced = .ok g ∧
      g.textChars = "199FE037-2B82-40A9-82AC-E1D46C792B99".toList ∧
      GuidWords.parse braced = some (.ok (GuidWords.ofGuid g)) ∧
      ofBytes g.toBytes g.length_toBytes = g := by
  obtain ⟨htexts, hguids, -⟩ := registry_format
  obtain ⟨haccepts, hprints, hmachine⟩ := htexts braced
  have htrimmed : Text.trimChars braced.toList = '\x7b' :: hyphenated bracedGroups ++ ['\x7d'] := by
    decide
  have hdigits : bracedGroups.all (fun group => group.all (· ∈ Hex.digits)) := by decide
  have htext : IsText braced bracedGroups := by
    refine ⟨by decide, ?_, htrimmed ▸ .braced⟩
    simpa only [List.all_eq_true, decide_eq_true_eq] using hdigits
  obtain ⟨g, hg⟩ := haccepts.2 ⟨_, htext⟩
  refine ⟨htext, g, hg, (hprints _ g htext hg).trans (by decide), ?_, (hguids g).2.1⟩
  rw [hmachine, hg]
  rfl

end Guid

end EventTrace
