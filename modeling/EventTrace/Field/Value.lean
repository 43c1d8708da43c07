import EventTrace.Decimal.Binary
import EventTrace.Field.Type
import EventTrace.Guid
import EventTrace.Text.Codec

/-!
# Field values

The values of fields and their bytes. A word is kept as its bit pattern. Values are equal as numbers
are, so that a NaN differs from itself; they agree in the sense of filters when they have the same type
and bits, or are texts with the same characters in whatever encoding.
-/

namespace EventTrace

inductive Scalar where
  | word (type : WordType) (pattern : BitVec type.bits)
  | boolean (b : Bool)
  | guid (g : Guid)
deriving DecidableEq

namespace Scalar

def type : Scalar → ScalarType
  | .word t _ => .word t
  | .boolean _ => .boolean
  | .guid _ => .guid

/-- The number that a word spells, with the sign that its type has. -/
def wordInt (t : WordType) (w : BitVec t.bits) : Int :=
  if t.isSigned then w.toInt else Int.ofNat w.toNat

def toBytes : Scalar → Bytes
  | .word t w => Bytes.ofNatLE t.width w.toNat
  | .boolean b => Bytes.ofNatLE 4 (if b then 1 else 0)
  | .guid g => g.toBytes

/-- The scalar that exactly its own number of bytes spells. A boolean is true unless all of its
bytes are zero. -/
def ofBytes? (t : ScalarType) (raw : Bytes) : Option Scalar :=
  match t with
  | .word w =>
    if raw.length = w.width then some (.word w (BitVec.ofNat w.bits raw.toNatLE)) else none
  | .boolean => if raw.length = 4 then some (.boolean (raw.toNatLE ≠ 0)) else none
  | .guid => (Guid.ofBytes? raw).map .guid

def read? (t : ScalarType) (raw : Bytes) : Option Scalar :=
  (raw.slice? 0 t.width).bind (ofBytes? t)

/-- Whether two scalars are equal as values, which for floating-point numbers is not to have the same
bits. -/
def equals : Scalar → Scalar → Bool
  | .word t v, .word u w =>
    t = u &&
      match t with
      | .float32 => Decimal.BinaryFormat.single.sameNumber v.toNat w.toNat
      | .float64 => Decimal.BinaryFormat.double.sameNumber v.toNat w.toNat
      | _ => v.toNat = w.toNat
  | .boolean a, .boolean b => a = b
  | .guid a, .guid b => a = b
  | _, _ => false

@[simp] theorem length_toBytes (s : Scalar) : s.toBytes.length = s.type.width := by
  cases s <;> simp [toBytes, type, ScalarType.width]

end Scalar

inductive FieldValue where
  | scalar (s : Scalar)
  | ansiString (text : String)
  | unicodeString (text : String)
  | bytes (data : Bytes)
deriving DecidableEq

namespace FieldValue

def type : FieldValue → FieldType
  | .scalar s => .scalar s.type
  | .ansiString _ => .ansiString
  | .unicodeString _ => .unicodeString
  | .bytes _ => .rawBytes

def text? : FieldValue → Option String
  | .ansiString s | .unicodeString s => some s
  | _ => none

/-- The number that a length may be taken from. -/
def integer? : FieldValue → Option Int
  | .scalar (.word t w) => if t.isIntegral then some (Scalar.wordInt t w) else none
  | _ => none

def equals : FieldValue → FieldValue → Bool
  | .scalar s, .scalar t => s.equals t
  | .ansiString s, .ansiString t => s = t
  | .unicodeString s, .unicodeString t => s = t
  | .bytes a, .bytes b => a = b
  | _, _ => false

/-- Equality as filters see it: the same bits for two floating-point numbers of one width, the same
characters for two strings, otherwise equality as values. -/
def agrees : FieldValue → FieldValue → Bool
  | .scalar (.word .float32 v), .scalar (.word .float32 w) => v = w
  | .scalar (.word .float64 v), .scalar (.word .float64 w) => v = w
  | a, b => if a.type.isString && b.type.isString then a.text? = b.text? else a.equals b

/-- The bytes of a value, with single-byte strings in the given codec. -/
def encode [Codecs] (codec : Codec) : FieldValue → Except Codec.Fault Bytes
  | .scalar s => .ok s.toBytes
  | .ansiString s => codec.encode s
  | .unicodeString s => .ok (Utf16.encode s)
  | .bytes data => .ok data

end FieldValue

end EventTrace
