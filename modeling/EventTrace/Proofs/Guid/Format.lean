import EventTrace.Guid
import EventTrace.Proofs.Text.Hex
import Mathlib.Data.List.SplitLengths

/-!
# The registry format

A text is read as a GUID exactly if it is five groups of hexadecimal digits with hyphens between them,
bare or in one pair of braces, between blanks (`Guid.parse_eq_ok_iff`). What was read is written as the
same digits in upper case (`Guid.IsText.exists_parse`), and what was written is read back
(`Guid.parse_text`).
-/

namespace EventTrace

namespace Guid

/-- Groups of digits with a hyphen between any two. -/
def hyphenated (groups : List (List Char)) : List Char := ['-'].intercalate groups

/-- A text, or the same one in braces. -/
inductive Wrapped (inner : List Char) : List Char → Prop
  | bare : Wrapped inner inner
  | braced : Wrapped inner ('\x7b' :: inner ++ ['\x7d'])

/-- Whether a text is a GUID in registry format, with given groups of digits. -/
structure IsText (s : String) (groups : List (List Char)) : Prop where
  sizes : groups.map List.length = [8, 4, 4, 4, 12]
  digits : ∀ group ∈ groups, ∀ c ∈ group, c ∈ Hex.digits
  wrapped : Wrapped (hyphenated groups) (Text.trimChars s.toList)

variable {s : String} {g g' : Guid} {cs ds : List Char} {octets : Bytes} {groups : List (List Char)}

theorem eq_iff_octets : g.octets = g'.octets ↔ g = g' := by
  cases g
  cases g'
  rw [Guid.mk.injEq]

/-! ## Pairs of digits -/

/-- Octets are read pair by pair. -/
theorem readOctets_append (h : readOctets cs = some octets) :
    readOctets (cs ++ ds) = (readOctets ds).map (octets ++ ·) := by
  fun_induction readOctets cs generalizing octets with
  | case1 =>
    cases h
    exact (Option.map_id_apply).symm
  | case2 => cases h
  | case3 high low rest vhigh vlow hlow hhigh ih =>
    obtain ⟨tail, htail, rfl⟩ := Option.map_eq_some_iff.1 h
    rw [List.cons_append, List.cons_append, readOctets, ih htail]
    simp only [hhigh, hlow, Option.map_map]
    rfl
  | case4 => cases h

/-- Only digits are read, two for an octet. -/
theorem of_readOctets (h : readOctets cs = some octets) :
    (∀ c ∈ cs, c ∈ Hex.digits) ∧ cs.length = 2 * octets.length := by
  fun_induction readOctets cs generalizing octets with
  | case1 =>
    cases h
    simp
  | case2 => cases h
  | case3 high low rest vhigh vlow hlow hhigh ih =>
    obtain ⟨tail, htail, rfl⟩ := Option.map_eq_some_iff.1 h
    obtain ⟨hdigits, hlength⟩ := ih htail
    refine ⟨List.forall_mem_cons.2 ⟨?_, List.forall_mem_cons.2 ⟨?_, hdigits⟩⟩, ?_⟩
    · exact Hex.mem_digits_of_charValue? hhigh
    · exact Hex.mem_digits_of_charValue? hlow
    · rw [List.length_cons, List.length_cons, hlength, List.length_cons]
      omega
  | case4 => cases h

def spell (octets : Bytes) : List Char := octets.flatMap (Hex.pair Hex.upperDigit)

theorem length_spell (octets : Bytes) : (spell octets).length = 2 * octets.length := by
  induction octets with
  | nil => rfl
  | cons b octets ih =>
    rw [spell, List.flatMap_cons, List.length_append, ← spell, ih, List.length_cons]
    simp only [Hex.pair, List.length_cons, List.length_nil]
    omega

theorem spell_append (octets octets' : Bytes) : spell (octets ++ octets') = spell octets ++ spell octets' :=
  List.flatMap_append

/-- Pairs of digits are read, and written again in upper case. -/
theorem exists_readOctets : ∀ cs : List Char, cs.length % 2 = 0 → (∀ c ∈ cs, c ∈ Hex.digits) →
    ∃ octets, readOctets cs = some octets ∧ spell octets = cs.map Char.toUpper
  | [], _, _ => ⟨[], rfl, rfl⟩
  | [_], heven, _ => by cases heven
  | high :: low :: rest, heven, hdigits => by
    obtain ⟨hhigh, hdigits⟩ := List.forall_mem_cons.1 hdigits
    obtain ⟨hlow, hdigits⟩ := List.forall_mem_cons.1 hdigits
    obtain ⟨h, hh, hhupper⟩ := Hex.charValue?_of_mem hhigh
    obtain ⟨l, hl, hlupper⟩ := Hex.charValue?_of_mem hlow
    rw [List.length_cons, List.length_cons] at heven
    obtain ⟨tail, htail, hupper⟩ := exists_readOctets rest (by omega) hdigits
    have hbyte : (UInt8.ofNat (16 * h.val + l.val)).toNat = 16 * h.val + l.val := by
      rw [UInt8.toNat_ofNat']
      omega
    refine ⟨UInt8.ofNat (16 * h + l) :: tail, ?_, ?_⟩
    · rw [readOctets]
      simp only [hh, hl, htail, Option.map_some]
    · have hdiv : (16 * h.val + l.val) / 16 = h.val := by omega
      have hmod : (16 * h.val + l.val) % 16 = l.val := by omega
      rw [spell, List.flatMap_cons, ← spell, hupper, Hex.pair, hbyte, hdiv, hmod, hhupper, hlupper]
      rfl

theorem charValue?_upperDigit {n : Nat} (hn : n < 16) :
    Hex.charValue? (Hex.upperDigit n) = some n := by
  have hall : ∀ i : Fin 16, Hex.charValue? (Hex.upperDigit i) = some i.val := by decide
  exact hall ⟨n, hn⟩

/-- Octets are read back from their spelling. -/
theorem readOctets_spell (octets : Bytes) : readOctets (spell octets) = some octets := by
  induction octets with
  | nil => rfl
  | cons b octets ih =>
    have hb : b.toNat < 256 := b.toNat_lt
    have hhigh := charValue?_upperDigit (n := b.toNat / 16) (by omega)
    have hlow := charValue?_upperDigit (n := b.toNat % 16) (by omega)
    have hbyte : 16 * (b.toNat / 16) + b.toNat % 16 = b.toNat := Nat.div_add_mod _ _
    rw [spell, List.flatMap_cons, ← spell, Hex.pair, List.cons_append, List.cons_append,
      List.nil_append, readOctets, hhigh, hlow]
    simp only [ih, Option.map_some, hbyte, UInt8.ofNat_toNat]

/-! ## Groups -/

theorem hyphenated_cons_cons (a b : List Char) (groups : List (List Char)) :
    hyphenated (a :: b :: groups) = a ++ '-' :: hyphenated (b :: groups) := by
  rw [hyphenated, List.intercalate_cons_cons, List.append_assoc]
  rfl

/-- A hyphen stands behind the first of several groups. -/
theorem exists_cons_of_sizes {n : Nat} {sizes : List Nat} (hmore : sizes ≠ [])
    (h : groups.map List.length = (n :: sizes).map (2 * ·)) :
    ∃ first later, groups = first :: later ∧ first.length = 2 * n ∧
      later.map List.length = sizes.map (2 * ·) ∧
      hyphenated groups = first ++ '-' :: hyphenated later := by
  rw [List.map_cons] at h
  obtain ⟨first, later, rfl, hfirst, hlater⟩ := List.map_eq_cons_iff.1 h
  have hne : later ≠ [] := by
    rintro rfl
    exact hmore (List.map_eq_nil_iff.1 hlater.symm)
  obtain ⟨second, others, rfl⟩ := List.exists_cons_of_ne_nil hne
  exact ⟨first, _, rfl, hfirst, hlater, hyphenated_cons_cons _ _ _⟩

/-- Exactly the groups of the given sizes with hyphens between them are read, as their octets in a
row. -/
theorem readGroups_eq_some_iff {sizes : List Nat} : readGroups sizes cs = some octets ↔
    ∃ groups, groups.map List.length = sizes.map (2 * ·) ∧ cs = hyphenated groups ∧
      readOctets groups.flatten = some octets := by
  fun_induction readGroups sizes cs generalizing octets with
  | case1 =>
    constructor
    · rintro ⟨⟩
      exact ⟨[], rfl, rfl, rfl⟩
    · rintro ⟨groups, hsizes, -, hoctets⟩
      rw [List.map_nil, List.map_eq_nil_iff] at hsizes
      rwa [hsizes] at hoctets
  | case2 =>
    constructor
    · rintro ⟨⟩
    · rintro ⟨groups, hsizes, hcs, -⟩
      rw [List.map_nil, List.map_eq_nil_iff] at hsizes
      rw [hsizes] at hcs
      cases hcs
  | case3 n cs hlength =>
    constructor
    · intro hoctets
      exact ⟨[cs], by simp [hlength], List.intercalate_singleton.symm, by simpa using hoctets⟩
    · rintro ⟨groups, hsizes, rfl, hoctets⟩
      obtain ⟨group, rfl⟩ := List.length_eq_one_iff.1 (by simpa using congrArg List.length hsizes)
      simpa [hyphenated] using hoctets
  | case4 n cs hlength =>
    constructor
    · rintro ⟨⟩
    · rintro ⟨groups, hsizes, rfl, -⟩
      obtain ⟨group, rfl⟩ := List.length_eq_one_iff.1 (by simpa using congrArg List.length hsizes)
      exact absurd (by simpa [hyphenated] using hsizes) hlength
  | case5 n sizes cs hmore octets' rest hdrop htake ih =>
    rw [Option.map_eq_some_iff]
    constructor
    · rintro ⟨tail, htail, rfl⟩
      obtain ⟨groups, hsizes, rfl, hoctets⟩ := ih.1 htail
      have hlength : (cs.take (2 * n)).length = 2 * n := by
        have hle := congrArg List.length hdrop
        rw [List.length_drop, List.length_cons] at hle
        rw [List.length_take]
        omega
      have hne : groups ≠ [] := by
        rintro rfl
        exact hmore (List.map_eq_nil_iff.1 hsizes.symm)
      obtain ⟨first, later, rfl⟩ := List.exists_cons_of_ne_nil hne
      refine ⟨cs.take (2 * n) :: first :: later, ?_, ?_, ?_⟩
      · rw [List.map_cons, hlength, hsizes]
        rfl
      · rw [hyphenated_cons_cons, ← hdrop, List.take_append_drop]
      · rw [List.flatten_cons, readOctets_append htake, hoctets]
        rfl
    · rintro ⟨groups, hsizes, rfl, hoctets⟩
      obtain ⟨first, later, rfl, hfirst, hlater, hcs⟩ := exists_cons_of_sizes hmore hsizes
      rw [hcs, ← hfirst, List.take_left] at htake
      rw [hcs, ← hfirst, List.drop_left] at hdrop
      rw [List.flatten_cons, readOctets_append htake] at hoctets
      obtain ⟨tail, htail, rfl⟩ := Option.map_eq_some_iff.1 hoctets
      exact ⟨tail, ih.2 ⟨later, hlater, (List.cons.inj hdrop).2.symm, htail⟩, rfl⟩
  | case6 n sizes cs hmore hnone =>
    constructor
    · rintro ⟨⟩
    · rintro ⟨groups, hsizes, rfl, hoctets⟩
      obtain ⟨first, later, rfl, hfirst, hlater, hcs⟩ := exists_cons_of_sizes hmore hsizes
      have hdigits := (of_readOctets hoctets).1
      obtain ⟨octets', htake, -⟩ := exists_readOctets first (by omega) fun c hc =>
        hdigits c (List.mem_flatten.2 ⟨first, List.mem_cons_self, hc⟩)
      refine (hnone octets' (hyphenated later) ?_ ?_).elim
      · rwa [hcs, ← hfirst, List.take_left]
      · rw [hcs, ← hfirst, List.drop_left]

/-! ## Braces -/

/-- The braces differ, so that a text with both has two of them. -/
theorem exists_braced (hopen : cs.head? = some '\x7b') (hclose : cs.getLast? = some '\x7d') :
    ∃ inner, cs = '\x7b' :: inner ++ ['\x7d'] := by
  obtain ⟨rest, rfl⟩ := List.head?_eq_some_iff.1 hopen
  obtain ⟨front, hfront⟩ := List.getLast?_eq_some_iff.1 hclose
  cases front with
  | nil => cases hfront
  | cons c inner =>
    obtain ⟨rfl, hrest⟩ := List.cons.inj hfront
    exact ⟨inner, congrArg (_ :: ·) hrest⟩

theorem drop_dropLast_braced (inner : List Char) :
    (('\x7b' :: inner ++ ['\x7d']).drop 1).dropLast = inner := by
  simp

/-- Only a text that is bare or in braces is unwrapped. -/
theorem wrapped_of_unwrap {inner : List Char} (h : unwrap cs = some inner) : Wrapped inner cs := by
  unfold unwrap at h
  split at h
  · rename_i hopen hclose
    obtain ⟨inner', rfl⟩ := exists_braced (beq_iff_eq.1 hopen) (beq_iff_eq.1 hclose)
    rw [drop_dropLast_braced, Option.some.injEq] at h
    rw [h]
    exact .braced
  · cases h
    exact .bare
  · cases h

/-- What has no brace at either end is what is between braces. -/
theorem unwrap_of_wrapped {inner : List Char} (hhead : inner.head? ≠ some '\x7b')
    (hlast : inner.getLast? ≠ some '\x7d') (h : Wrapped inner cs) : unwrap cs = some inner := by
  cases h with
  | bare => rw [unwrap, beq_eq_false_iff_ne.2 hhead, beq_eq_false_iff_ne.2 hlast]
  | braced =>
    have hclose : ('\x7b' :: inner ++ ['\x7d']).getLast? = some '\x7d' := List.getLast?_concat
    rw [unwrap, hclose, drop_dropLast_braced]
    rfl

/-! ## Texts -/

theorem mem_hyphenated {c : Char} (h : c ∈ hyphenated groups) : c = '-' ∨ c ∈ groups.flatten := by
  induction groups with
  | nil => cases h
  | cons first later ih =>
    cases later with
    | nil =>
      rw [hyphenated, List.intercalate_singleton] at h
      exact .inr (by simpa using h)
    | cons second later =>
      rw [hyphenated_cons_cons, List.mem_append, List.mem_cons] at h
      rcases h with h | rfl | h
      · exact .inr (List.mem_append_left _ h)
      · exact .inl rfl
      · exact (ih h).imp_right (List.mem_append_right _)

/-- The characters of the format without braces. -/
theorem mem_of_hyphenated {c : Char} (hdigits : ∀ c ∈ groups.flatten, c ∈ Hex.digits)
    (h : c ∈ hyphenated groups) : c ∈ '-' :: Hex.digits :=
  List.mem_cons.2 ((mem_hyphenated h).imp_right (hdigits c))

theorem unwrap_hyphenated (hdigits : ∀ c ∈ groups.flatten, c ∈ Hex.digits)
    (h : Wrapped (hyphenated groups) cs) : unwrap cs = some (hyphenated groups) := by
  refine unwrap_of_wrapped (fun hhead => ?_) (fun hlast => ?_) h
  · exact absurd (mem_of_hyphenated hdigits (List.mem_of_head? hhead)) (by decide)
  · exact absurd (mem_of_hyphenated hdigits (List.mem_of_getLast? hlast)) (by decide)

theorem IsText.unwrap_eq (h : IsText s groups) :
    unwrap (Text.trimChars s.toList) = some (hyphenated groups) := by
  refine unwrap_hyphenated (fun c hc => ?_) h.wrapped
  obtain ⟨group, hgroup, hc⟩ := List.mem_flatten.1 hc
  exact h.digits group hgroup c hc

/-- A text is an identifier exactly if its groups, unwrapped and trimmed, spell its octets. -/
theorem parse_eq_ok_iff_bind : parse s = .ok g ↔
    (unwrap (Text.trimChars s.toList)).bind (readGroups [4, 2, 2, 2, 6]) = some g.octets := by
  rw [parse]
  split
  · rename_i octets hoctets
    rw [hoctets]
    split
    · rename_i hsize
      rw [Except.ok.injEq, Option.some.injEq, ← eq_iff_octets]
    · rename_i hsize
      simp only [reduceCtorEq, Option.some.injEq, false_iff]
      rintro rfl
      exact hsize g.size
  · rename_i hnone
    rw [hnone]
    simp

/-- Exactly groups of digits are read, as the octets that they spell in a row. -/
theorem parse_eq_ok_iff : parse s = .ok g ↔
    ∃ groups, IsText s groups ∧ readOctets groups.flatten = some g.octets := by
  rw [parse_eq_ok_iff_bind, Option.bind_eq_some_iff]
  constructor
  · rintro ⟨inner, hinner, hgroups⟩
    obtain ⟨groups, hsizes, rfl, hoctets⟩ := readGroups_eq_some_iff.1 hgroups
    refine ⟨groups, ⟨hsizes, fun group hgroup c hc => ?_, wrapped_of_unwrap hinner⟩, hoctets⟩
    exact (of_readOctets hoctets).1 c (List.mem_flatten.2 ⟨group, hgroup, hc⟩)
  · rintro ⟨groups, htext, hoctets⟩
    exact ⟨_, htext.unwrap_eq, readGroups_eq_some_iff.2 ⟨groups, htext.sizes, rfl, hoctets⟩⟩

/-- A text that is refused is reported as it was given. -/
theorem eq_of_parse_eq_error {e : Invalid} (h : parse s = .error e) : e = ⟨s⟩ := by
  rw [parse] at h
  split at h
  · split at h
    · cases h
    · exact (Except.error.inj h).symm
  · exact (Except.error.inj h).symm

/-! ## Printing -/

/-- How many octets each group of the format has. -/
def groupSizes : List Nat := [4, 2, 2, 2, 6]

/-- The octets of a GUID in the groups of the format. -/
def octetGroups (g : Guid) : List Bytes := groupSizes.splitLengths g.octets

theorem flatten_octetGroups (g : Guid) : g.octetGroups.flatten = g.octets :=
  List.flatten_splitLengths _ _ (by rw [g.size]; decide)

theorem map_length_octetGroups (g : Guid) : g.octetGroups.map List.length = groupSizes :=
  List.map_splitLengths_length _ _ (by rw [g.size]; decide)

theorem textChars_eq (g : Guid) : g.textChars = hyphenated (g.octetGroups.map spell) := by
  have hlast : (g.octets.drop 10).take 6 = g.octets.drop 10 :=
    List.take_of_length_le (by rw [List.length_drop, g.size])
  simp only [textChars, octetGroups, groupSizes, List.splitLengths_cons, List.splitLengths_nil,
    List.map_cons, List.map_nil, hyphenated_cons_cons, List.drop_drop, List.drop_zero, hlast]
  simp [hyphenated, spell]

/-- Pieces of known lengths are found again in the whole. -/
theorem splitLengths_flatten (pieces : List Bytes) :
    (pieces.map List.length).splitLengths pieces.flatten = pieces := by
  induction pieces with
  | nil => rfl
  | cons piece pieces ih =>
    rw [List.map_cons, List.splitLengths_cons, List.flatten_cons, List.take_left, List.drop_left, ih]

/-- Groups of digits spell groups of octets, which are written as the same digits in upper case. -/
theorem exists_pieces : ∀ (sizes : List Nat) (groups : List (List Char)),
    groups.map List.length = sizes.map (2 * ·) → (∀ group ∈ groups, ∀ c ∈ group, c ∈ Hex.digits) →
    ∃ pieces : List Bytes, readOctets groups.flatten = some pieces.flatten ∧
      pieces.map List.length = sizes ∧ pieces.map spell = groups.map (·.map Char.toUpper)
  | [], [], _, _ => ⟨[], rfl, rfl, rfl⟩
  | [], _ :: _, hsizes, _ => by cases hsizes
  | _ :: _, [], hsizes, _ => by cases hsizes
  | size :: sizes, group :: groups, hsizes, hdigits => by
    obtain ⟨hsize, hsizes⟩ : group.length = 2 * size ∧ _ := List.cons.inj hsizes
    obtain ⟨hdigits, hmore⟩ := List.forall_mem_cons.1 hdigits
    obtain ⟨piece, hpiece, hupper⟩ := exists_readOctets group (by omega) hdigits
    obtain ⟨pieces, hpieces, hlengths, huppers⟩ := exists_pieces sizes groups hsizes hmore
    have hlength : piece.length = size := by
      have htwice := (of_readOctets hpiece).2
      omega
    refine ⟨piece :: pieces, ?_, ?_, ?_⟩
    · rw [List.flatten_cons, readOctets_append hpiece, hpieces]
      rfl
    · rw [List.map_cons, hlengths, hlength]
    · rw [List.map_cons, List.map_cons, huppers, hupper]

/-- A text in the format is read, and what was read is written as its digits in upper case. -/
theorem IsText.exists_parse (h : IsText s groups) :
    ∃ g, parse s = .ok g ∧ g.textChars = hyphenated (groups.map (·.map Char.toUpper)) := by
  obtain ⟨pieces, hoctets, hsizes, hupper⟩ := exists_pieces groupSizes groups h.sizes h.digits
  have hsize : pieces.flatten.length = 16 := by
    rw [List.length_flatten, hsizes]
    rfl
  refine ⟨⟨pieces.flatten, hsize⟩, parse_eq_ok_iff.2 ⟨groups, h, hoctets⟩, ?_⟩
  rw [textChars_eq, octetGroups, ← hsizes, splitLengths_flatten, hupper]

/-! ## Reading what was printed -/

theorem mem_digits_of_mem_spell {c : Char} (h : c ∈ spell octets) : c ∈ Hex.digits :=
  (of_readOctets (readOctets_spell octets)).1 c h

theorem flatten_map_spell (pieces : List Bytes) : (pieces.map spell).flatten = spell pieces.flatten := by
  induction pieces with
  | nil => rfl
  | cons piece pieces ih => rw [List.map_cons, List.flatten_cons, ih, List.flatten_cons, spell_append]

/-- The text of an identifier has the format of the registry. -/
theorem isText_text (g : Guid) : IsText g.text (g.octetGroups.map spell) where
  sizes := by
    have hlengths : List.length ∘ spell = (2 * ·) ∘ List.length := funext length_spell
    rw [List.map_map, hlengths, ← List.map_map, map_length_octetGroups]
    rfl
  digits group hgroup c hc := by
    obtain ⟨piece, -, rfl⟩ := List.mem_map.1 hgroup
    exact mem_digits_of_mem_spell hc
  wrapped := by
    have hplain : ∀ c ∈ g.textChars, Text.isBlank c = false := by
      intro c hc
      rw [textChars_eq] at hc
      have hall : ∀ c ∈ '-' :: Hex.digits, Text.isBlank c = false :=
        List.forall_mem_cons.2 ⟨by decide, Hex.forall_mem_digits (by decide)⟩
      refine hall c (mem_of_hyphenated (fun c hc => ?_) hc)
      rw [flatten_map_spell] at hc
      exact mem_digits_of_mem_spell hc
    rw [text, String.toList_ofList, Text.trimChars_of_forall hplain, textChars_eq]
    exact .bare

/-- What was written is read back. -/
theorem parse_text (g : Guid) : parse g.text = .ok g := by
  refine parse_eq_ok_iff.2 ⟨_, isText_text g, ?_⟩
  rw [flatten_map_spell, readOctets_spell, flatten_octetGroups]

end Guid

end EventTrace
