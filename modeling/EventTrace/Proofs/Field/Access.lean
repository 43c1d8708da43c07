import EventTrace.Field.Machine
import EventTrace.Proofs.Field.Scalar
import EventTrace.Proofs.Guid.Words
import EventTrace.Proofs.Reading.Machine

/-!
# Access to values of fixed width is exact

An encoding is exact if arrays and values are the same thing under it (`Machine.Encoding.Exact`). All are
but that of booleans, which any nonzero word is read as, and that are written as one or zero. As the array
of a type has the width that the table of field types gives (`Machine.FixedType.size_encoding`), a value is
read wherever its width fits, from the bytes there and no others (`Machine.FixedType.access_exact`).
-/

namespace EventTrace.Machine

variable {α : Type} {raw : Bytes} {n : Nat}

/-! ## Arrays -/

/-- Bytes of the width are taken from the front, whatever follows. -/
theorem readArray_eq_some (hsize : raw.length < lengthBound) (hle : n ≤ raw.length) :
    readArray n raw 0 = some ⟨raw.take n, List.length_take_of_le hle⟩ := by
  have hstop : add 0 n = some n := by
    rw [add_eq_some (by omega), Nat.zero_add]
  have hslice : slice raw 0 n = some (raw.take n) := slice_eq_some (Nat.zero_le n) hle
  simp only [readArray, hstop, hslice, Option.bind_eq_bind, Option.bind_some]
  exact dif_pos _

/-- Fewer bytes than the width are no array. -/
theorem readArray_eq_none (hlt : raw.length < n) : readArray n raw 0 = none := by
  have hslice : slice raw 0 n = none := if_neg fun h => Nat.not_le.2 hlt h.2
  rw [readArray, add, Nat.zero_add]
  -- the sum may be one that no word holds
  split
  · rw [Option.bind_eq_bind, Option.bind_some, hslice]
    rfl
  · rfl

/-! ## Encodings -/

namespace Encoding

variable {e : Encoding α}

theorem read_eq_ok (hsize : raw.length < lengthBound) (hle : e.size ≤ raw.length) (what : String) :
    e.read raw what = .ok (e.decode ⟨raw.take e.size, List.length_take_of_le hle⟩) := by
  rw [read, readArray_eq_some hsize hle]

theorem read_eq_error (hlt : raw.length < e.size) (what : String) :
    e.read raw what = .error ⟨what, 0, e.size, raw.length⟩ := by
  rw [read, readArray_eq_none hlt]
  rfl

/-- Whether nothing is lost between arrays and values. -/
structure Exact (e : Encoding α) : Prop where
  decode_encode : ∀ v, e.decode (e.encode v) = v
  encode_decode : ∀ octets, e.encode (e.decode octets) = octets

theorem toNat_decode_word (octets : Octets n) :
    ((word n).decode octets).toNat = octets.val.toNatLE := by
  have hlt := Bytes.toNatLE_lt octets.val
  rw [octets.property] at hlt
  exact Nat.mod_eq_of_lt hlt

/-- Words and their bytes determine each other. -/
theorem exact_word (n : Nat) : (word n).Exact where
  decode_encode v := by
    have hv : v.toNat % wordCount (8 * n) = v.toNat := Nat.mod_eq_of_lt v.isLt
    simp only [word, Bytes.toNatLE_ofNatLE, hv, BitVec.ofNat_toNat, BitVec.setWidth_eq]
  encode_decode octets := by
    have hbytes := Bytes.ofNatLE_toNatLE octets.val
    rw [octets.property] at hbytes
    refine Subtype.ext ?_
    calc
      Bytes.ofNatLE n ((word n).decode octets).toNat
        = Bytes.ofNatLE n octets.val.toNatLE := congrArg _ (toNat_decode_word octets)
      _ = octets.val := hbytes

theorem exact_byte : byte.Exact where
  decode_encode _ := rfl
  encode_decode
    | ⟨[_], _⟩ => rfl

theorem exact_guid : guid.Exact where
  decode_encode g := GuidWords.ofBytes_toBytes g
  encode_decode octets := Subtype.ext (GuidWords.toBytes_ofBytes octets.val octets.property)

/-- What a boolean is written as that was read from some bytes. -/
def canonicalBoolean (raw : Bytes) : Bytes := if raw.all (· = 0) then [0, 0, 0, 0] else [1, 0, 0, 0]

theorem toNatLE_eq_zero_iff : raw.toNatLE = 0 ↔ raw.all (· = 0) = true := by
  induction raw with
  | nil => exact iff_of_true rfl rfl
  | cons b rest ih =>
    have hb : b = 0 ↔ b.toNat = 0 := UInt8.toNat_inj.symm
    rw [Bytes.toNatLE, List.all_cons, Bool.and_eq_true, ← ih, decide_eq_true_eq, hb]
    omega

theorem boolean_decode_encode (b : Bool) : boolean.decode (boolean.encode b) = b := by
  change ((word 4).decode ((word 4).encode (if b then 1 else 0)) != 0) = b
  rw [(exact_word 4).decode_encode]
  cases b <;> rfl

/-- Four bytes are true unless the number they spell is zero. -/
theorem boolean_decode_eq (octets : Octets 4) :
    boolean.decode octets = decide (octets.val.toNatLE ≠ 0) := by
  have hzero : (word 4).decode octets = 0 ↔ octets.val.toNatLE = 0 := by
    rw [← toNat_decode_word]
    exact BitVec.toNat_inj.symm
  change ((word 4).decode octets != 0) = _
  rw [Bool.eq_iff_iff, bne_iff_ne, decide_eq_true_iff]
  exact not_congr hzero

/-- Writing a boolean that was read gives the canonical bytes. -/
theorem boolean_encode_decode (octets : Octets 4) :
    (boolean.encode (boolean.decode octets)).val = canonicalBoolean octets.val := by
  rw [boolean_decode_eq, canonicalBoolean]
  by_cases hall : octets.val.all (· = 0) = true
  · rw [if_pos hall, toNatLE_eq_zero_iff.2 hall]
    rfl
  · have hword : octets.val.toNatLE ≠ 0 := fun h => hall (toNatLE_eq_zero_iff.1 h)
    rw [if_neg hall, decide_eq_true hword]
    rfl

end Encoding

/-! ## Types -/

namespace Number

theorem exact_encoding (n : Number) : n.encoding.Exact := by
  cases n with
  | uint8 => exact Encoding.exact_byte
  | _ => exact Encoding.exact_word _

/-- The bits of a number are those of its bytes in little-endian order. -/
theorem decode_eq (n : Number) (octets : Octets n.encoding.size) :
    n.encoding.decode octets = BitVec.ofNat (8 * n.size) octets.val.toNatLE := by
  cases n with
  | uint8 =>
    match octets with
    | ⟨[b], _⟩ => exact (BitVec.ofNat_toNat 8 b.toBitVec).symm
  | _ => rfl

theorem size_encoding (n : Number) : n.encoding.size = n.type.width := by
  cases n <;> rfl

end Number

namespace FixedType

/-- What a value is written as that was read from some bytes. -/
def canonical : FixedType → Bytes → Bytes
  | .boolean, raw => Encoding.canonicalBoolean raw
  | _, raw => raw

variable (t : FixedType)

/-- The arrays of a type have the width of its fields. -/
theorem size_encoding : t.encoding.size = t.width := by
  cases t with
  | number n => cases n <;> rfl
  | _ => rfl

theorem width_eq : t.width = t.type.width := rfl

/-- A value of a fixed type is read back from its bytes. -/
theorem decode_encode (v : t.Carrier) : t.encoding.decode (t.encoding.encode v) = v := by
  cases t with
  | number n => exact n.exact_encoding.decode_encode v
  | hexInt32 | pointer | hexInt64 | filetime => exact (Number.exact_encoding _).decode_encode v
  | boolean => exact Encoding.boolean_decode_encode v
  | guid => exact Encoding.exact_guid.decode_encode v

/-- Bytes are written again up to the canonical boolean. -/
theorem encode_decode (octets : Octets t.encoding.size) :
    (t.encoding.encode (t.encoding.decode octets)).val = t.canonical octets.val := by
  cases t with
  | number n => exact congrArg Subtype.val (n.exact_encoding.encode_decode octets)
  | hexInt32 | pointer | hexInt64 | filetime =>
    exact congrArg Subtype.val ((Number.exact_encoding _).encode_decode octets)
  | boolean => exact Encoding.boolean_encode_decode octets
  | guid => exact congrArg Subtype.val (Encoding.exact_guid.encode_decode octets)

/-- An array is decoded as the scalar that its bytes are. -/
theorem ofBytes?_toScalar (octets : Octets t.encoding.size) :
    Scalar.ofBytes? t.type octets.val = some (t.toScalar (t.encoding.decode octets)) := by
  cases t with
  | number n =>
    have hlength := octets.property.trans n.size_encoding
    have hdecode := n.decode_eq octets
    change _ = some (Scalar.word n.type (BitVec.cast _ (n.encoding.decode octets)))
    rw [hdecode]
    cases n <;> exact if_pos hlength
  | hexInt32 | pointer | hexInt64 | filetime => exact if_pos octets.property
  | boolean =>
    have hbytes : Scalar.ofBytes? .boolean octets.val = _ := if_pos octets.property
    exact hbytes.trans (congrArg (some ∘ Scalar.boolean) (Encoding.boolean_decode_eq octets).symm)
  | guid =>
    have hbytes : Guid.ofBytes? octets.val = _ := dif_pos octets.property
    have hwords := GuidWords.toBytes_ofBytes octets.val octets.property
    change (Guid.ofBytes? octets.val).map Scalar.guid = some (.guid (.ofBytes
      (GuidWords.ofBytes octets.val octets.property).toBytes _))
    simp only [hbytes, hwords, Option.map_some]

/-! ## Reads -/

/-- What a value has to do with bytes that are enough for its type. -/
structure Holds (t : FixedType) (raw : Bytes) (v : t.Carrier) : Prop where
  /-- The value is read wherever these bytes stand in the width of the type, whatever is behind. -/
  read : ∀ (other : Bytes) (what : String), other.length < lengthBound →
    other.take t.width = raw.take t.width → t.read other what = .ok v
  /-- It is written as these bytes, or as a boolean is. -/
  write : ∀ out, t.write v out = out ++ t.canonical (raw.take t.width)
  /-- It is read again from what is written. -/
  again : ∀ what, t.read (t.write v []) what = .ok v

theorem width_lt : t.width < lengthBound := by
  have hwidth : t.width ≤ 16 := by
    cases t with
    | number n => cases n <;> decide
    | _ => decide
  exact Nat.lt_of_le_of_lt hwidth (by decide)

/-- A value that is written to nothing is read back. -/
theorem read_write (v : t.Carrier) (what : String) : t.read (t.write v []) what = .ok v := by
  have hlength := (t.encoding.encode v).property
  have hsize : (t.encoding.encode v).val.length < lengthBound := by
    rw [hlength, size_encoding]
    exact width_lt t
  have hwhole : (t.encoding.encode v).val.take t.encoding.size = (t.encoding.encode v).val :=
    List.take_of_length_le (Nat.le_of_eq hlength)
  have hread := Encoding.read_eq_ok hsize (Nat.le_of_eq hlength.symm) what
  simp only [hwhole] at hread
  exact hread.trans (congrArg Except.ok (t.decode_encode v))

variable {t}

theorem read_eq_error (hlt : raw.length < t.width) (what : String) :
    t.read raw what = .error ⟨what, 0, t.width, raw.length⟩ := by
  rw [← size_encoding] at hlt ⊢
  exact Encoding.read_eq_error hlt what

/-- The value that the first bytes of some are the array of. -/
theorem exists_holds (hle : t.width ≤ raw.length) :
    ∃ v, t.Holds raw v ∧ Scalar.ofBytes? t.type (raw.take t.width) = some (t.toScalar v) := by
  have hlength : (raw.take t.width).length = t.encoding.size := by
    rw [size_encoding]
    exact List.length_take_of_le hle
  refine ⟨t.encoding.decode ⟨raw.take t.width, hlength⟩, ⟨?_, ?_, ?_⟩, ?_⟩
  · intro other what hsize hother
    -- what has the same first bytes has as many of them
    have hfits : t.encoding.size ≤ other.length := by
      rw [← hlength, ← hother]
      exact List.length_take_le' _ _
    have hread := Encoding.read_eq_ok hsize hfits what
    simp only [size_encoding, hother] at hread
    exact hread
  · intro out
    exact congrArg (out ++ ·) (t.encode_decode _)
  · exact t.read_write _
  · exact t.ofBytes?_toScalar ⟨raw.take t.width, hlength⟩

/-- What is read is the scalar that the type has in the same bytes. -/
theorem map_read (hsize : raw.length < lengthBound) (what : String) :
    (t.read raw what).map t.toScalar = Scalar.read t.type raw what := by
  rw [Scalar.read, Scalar.read?, ← width_eq]
  by_cases hle : t.width ≤ raw.length
  · obtain ⟨v, hv, hscalar⟩ := exists_holds hle
    have hslice : raw.slice? 0 t.width = some (raw.take t.width) :=
      Bytes.slice?_eq_some_iff.2 ⟨by omega, rfl⟩
    rw [hv.read raw what hsize rfl, hslice, Option.bind_some, hscalar]
    rfl
  · have hslice : raw.slice? 0 t.width = none := if_neg (by omega)
    rw [read_eq_error (Nat.not_le.1 hle), hslice]
    rfl

end FixedType

/-! ## Records -/

/-- A range is read exactly if it ends in the data, and the error counts what is left there. -/
theorem get_eq_ite {data : Bytes} (hsize : data.length < lengthBound) (offset length : Nat)
    (what : String) :
    get data offset length what =
      if offset + length ≤ data.length then .ok ((data.drop offset).take length)
      else .error ⟨what, offset, length, data.length - offset⟩ := by
  rw [get_eq_slice hsize, Bytes.slice, Bytes.slice?]
  by_cases hle : offset + length ≤ data.length
  · rw [if_pos hle, if_pos hle]
  · rw [if_neg hle, if_neg hle, Shortage.of]

theorem length_of_get {data : Bytes} (hsize : data.length < lengthBound) {offset length : Nat}
    {what : String} (h : get data offset length what = .ok raw) : raw.length = length := by
  rw [get_eq_ite hsize] at h
  split at h
  next hle =>
    obtain rfl := Except.ok.inj h
    rw [List.length_take, List.length_drop]
    omega
  next => cases h

namespace FixedType

variable {t : FixedType} {r : Record} {offset : Nat}

theorem length_userData_lt (hsize : r.body.length < lengthBound) :
    r.userData.length < lengthBound :=
  Nat.lt_of_le_of_lt (List.length_take_le' _ _) hsize

/-- A value is read where its width fits into the user data. -/
theorem readAt_eq_ok (hsize : r.body.length < lengthBound)
    (hfits : offset + t.width ≤ r.userData.length) :
    ∃ v, t.Holds ((r.userData.drop offset).take t.width) v ∧ t.readAt r offset = .ok v := by
  have hget := get_eq_ite (length_userData_lt hsize) offset t.width t.type.name
  rw [if_pos hfits] at hget
  have hlength := length_of_get (length_userData_lt hsize) hget
  obtain ⟨v, hv, -⟩ := exists_holds (Nat.le_of_eq hlength.symm)
  refine ⟨v, hv, ?_⟩
  rw [readAt, hget]
  refine hv.read _ t.type.name ?_ rfl
  rw [hlength]
  exact width_lt t

theorem readAt_eq_error (hsize : r.body.length < lengthBound)
    (hshort : r.userData.length < offset + t.width) :
    t.readAt r offset = .error ⟨t.type.name, offset, t.width, r.userData.length - offset⟩ := by
  rw [readAt, get_eq_ite (length_userData_lt hsize), if_neg (Nat.not_le.2 hshort)]
  rfl

/-- Reading at an offset of a record agrees with the reader of scalars. -/
theorem map_readAt (hsize : r.body.length < lengthBound) (offset : Nat) :
    (t.readAt r offset).map t.toScalar = r.readAt t.type offset := by
  have hget := get_eq_slice (length_userData_lt hsize) offset t.width t.type.name
  rw [readAt, Record.readAt, ← width_eq, ← hget]
  cases hraw : get r.userData offset t.width t.type.name with
  | error e => rfl
  | ok raw =>
    refine map_read ?_ t.type.name
    rw [length_of_get (length_userData_lt hsize) hraw]
    exact width_lt t

/-- Slices are the bytes in their bounds, a value of each type is read from bytes that are enough and
written as these, and a record is read within its user data alone. -/
theorem access_exact :
    (∀ (data : Bytes) (offset length : Nat) (what : String), data.length < lengthBound →
      get data offset length what =
        if offset + length ≤ data.length then .ok ((data.drop offset).take length)
        else .error ⟨what, offset, length, data.length - offset⟩) ∧
    (∀ (t : FixedType) (raw : Bytes) (what : String), raw.length < lengthBound →
      (t.width ≤ raw.length → ∃ v, t.Holds raw v) ∧
      (raw.length < t.width → t.read raw what = .error ⟨what, 0, t.width, raw.length⟩) ∧
      (t.read raw what).map t.toScalar = Scalar.read t.type raw what) ∧
    ∀ (t : FixedType) (r : Record) (offset : Nat), r.body.length < lengthBound →
      (offset + t.width ≤ r.userData.length →
        ∃ v, t.Holds ((r.userData.drop offset).take t.width) v ∧ t.readAt r offset = .ok v) ∧
      (r.userData.length < offset + t.width → t.readAt r offset =
        .error ⟨t.type.name, offset, t.width, r.userData.length - offset⟩) ∧
      (∀ other : Record, other.userData = r.userData →
        t.readAt other offset = t.readAt r offset) ∧
      (t.readAt r offset).map t.toScalar = r.readAt t.type offset := by
  refine ⟨fun data offset length what hsize => get_eq_ite hsize offset length what,
    fun t raw what hsize => ⟨fun hle => ?_, fun hlt => read_eq_error hlt what,
      map_read hsize what⟩,
    fun t r offset hsize => ⟨readAt_eq_ok hsize, readAt_eq_error hsize, fun other hother => ?_,
      map_readAt hsize offset⟩⟩
  · obtain ⟨v, hv, -⟩ := exists_holds hle
    exact ⟨v, hv⟩
  · rw [readAt, readAt, hother]

/-- A slice at the last offset of all is refused, and a boolean that was neither zero nor one is written
as one. -/
theorem access_exact_boolean :
    get [1, 2] (lengthBound - 1) 4 "value" = .error ⟨"value", lengthBound - 1, 4, 0⟩ ∧
      FixedType.boolean.width ≤ [0, 2, 0, 0, 7].length ∧
      ∃ v, FixedType.boolean.read [0, 2, 0, 0, 7] "flag" = .ok v ∧
        FixedType.boolean.write v [] = [1, 0, 0, 0] := by
  obtain ⟨hslices, htypes, -⟩ := access_exact
  have hwidth : FixedType.boolean.width ≤ [0, 2, 0, 0, 7].length := by decide
  obtain ⟨v, hv⟩ := (htypes .boolean [0, 2, 0, 0, 7] "flag" (by decide)).1 hwidth
  refine ⟨?_, hwidth, v, hv.read _ "flag" (by decide) rfl, hv.write []⟩
  exact (hslices [1, 2] (lengthBound - 1) 4 "value" (by decide)).trans (if_neg (by decide))

end FixedType

end EventTrace.Machine
