import EventTrace.Guid.Machine
import EventTrace.Record.Basic

/-!
# Scalars in words

How a machine reads and writes values of fixed width. A value has an encoding in an array of bytes, whose
size is part of the code of its type, while what a record is asked for is the width that the table of field
types has for it. Numbers are held by their bits, in two's complement if they are signed.

That the two widths are one, and that nothing is lost between arrays and values, is the subject of
`EventTrace.Proofs.Field.Access`.
-/

namespace EventTrace.Machine

/-! ## Arrays -/

/-- Arrays of some number of bytes. -/
abbrev Octets (n : Nat) := {raw : Bytes // raw.length = n}

def readArray (n : Nat) (data : Bytes) (offset : Nat) : Option (Octets n) := do
  let stop ← add offset n
  let raw ← slice data offset stop
  if h : raw.length = n then return ⟨raw, h⟩ else none

/-! ## Encodings -/

/-- How values stand in arrays of one size. -/
structure Encoding (α : Type) where
  size : Nat
  decode : Octets size → α
  encode : α → Octets size

namespace Encoding

variable {α : Type} (e : Encoding α)

def read (raw : Bytes) (what : String) : Except Shortage α :=
  match readArray e.size raw 0 with
  | some octets => .ok (e.decode octets)
  | none => .error (.of raw what 0 e.size)

def write (v : α) (out : Bytes) : Bytes := out ++ (e.encode v).val

def word (n : Nat) : Encoding (BitVec (8 * n)) where
  size := n
  decode octets := BitVec.ofNat (8 * n) (Bytes.toNatLE octets.val)
  encode v := ⟨Bytes.ofNatLE n v.toNat, Bytes.length_ofNatLE n v.toNat⟩

def byte : Encoding (BitVec 8) where
  size := 1
  decode octets := (octets.val.get ⟨0, by rw [octets.property]; exact Nat.one_pos⟩).toBitVec
  encode v := ⟨[⟨v⟩], rfl⟩

/-- A word that is read as true unless it is zero, and written as one or zero. -/
def boolean : Encoding Bool where
  size := (word 4).size
  decode octets := (word 4).decode octets != 0
  encode b := (word 4).encode (if b then 1 else 0)

def guid : Encoding GuidWords where
  size := 16
  decode octets := .ofBytes octets.val octets.property
  encode g := ⟨g.toBytes, g.length_toBytes⟩

end Encoding

/-! ## Types -/

inductive Number where
  | int8 | int16 | int32 | int64
  | uint8 | uint16 | uint32 | uint64
  | float32 | float64
deriving DecidableEq, Repr

namespace Number

def size : Number → Nat
  | .int8 | .uint8 => 1
  | .int16 | .uint16 => 2
  | .int32 | .uint32 | .float32 => 4
  | .int64 | .uint64 | .float64 => 8

abbrev Bits (n : Number) : Type := BitVec (8 * n.size)

def encoding : (n : Number) → Encoding n.Bits
  | .uint8 => .byte
  | n => .word n.size

def type : Number → WordType
  | .int8 => .int8
  | .int16 => .int16
  | .int32 => .int32
  | .int64 => .int64
  | .uint8 => .uint8
  | .uint16 => .uint16
  | .uint32 => .uint32
  | .uint64 => .uint64
  | .float32 => .float32
  | .float64 => .float64

end Number

/-- The types of fixed width: the numbers, the types that wrap one, and the two others. -/
inductive FixedType where
  | number (n : Number)
  | pointer
  | hexInt32
  | hexInt64
  | filetime
  | boolean
  | guid
deriving DecidableEq, Repr

namespace FixedType

def Carrier : FixedType → Type
  | .number n => n.Bits
  | .hexInt32 => Number.uint32.Bits
  | .pointer | .hexInt64 | .filetime => Number.uint64.Bits
  | .boolean => Bool
  | .guid => GuidWords

def encoding : (t : FixedType) → Encoding t.Carrier
  | .number n => n.encoding
  | .hexInt32 => Number.uint32.encoding
  | .pointer | .hexInt64 | .filetime => Number.uint64.encoding
  | .boolean => .boolean
  | .guid => .guid

def type : FixedType → ScalarType
  | .number n => .word n.type
  | .pointer => .word .pointer
  | .hexInt32 => .word .hexInt32
  | .hexInt64 => .word .hexInt64
  | .filetime => .word .filetime
  | .boolean => .boolean
  | .guid => .guid

def toScalar : (t : FixedType) → t.Carrier → Scalar
  | .number n, v => .word n.type (BitVec.cast (by cases n <;> rfl) v)
  | .pointer, v => .word .pointer v
  | .hexInt32, v => .word .hexInt32 v
  | .hexInt64, v => .word .hexInt64 v
  | .filetime, v => .word .filetime v
  | .boolean, b => .boolean b
  | .guid, g => .guid (.ofBytes g.toBytes g.length_toBytes)

variable (t : FixedType)

def width : Nat := (FieldType.naturalWidth? (.scalar t.type)).getD 0

def read (raw : Bytes) (what : String) : Except Shortage t.Carrier := t.encoding.read raw what

def write (v : t.Carrier) (out : Bytes) : Bytes := t.encoding.write v out

/-- The value at an offset of the user data of a record. -/
def readAt (r : Record) (offset : Nat) : Except Shortage t.Carrier := do
  let raw ← get r.userData offset t.width t.type.name
  t.read raw t.type.name

end FixedType

end EventTrace.Machine
