/-!
# Field types

What a field of an event may hold. A scalar has a fixed width; a string or a run of bytes takes its
length from a rule of the layout. Words are the scalars that are one number of the width's bits.
-/

namespace EventTrace

/-- The types whose values are one little-endian number. -/
inductive WordType where
  | int8 | int16 | int32 | int64
  | uint8 | uint16 | uint32 | uint64
  | float32 | float64
  | pointer | filetime
  | hexInt32 | hexInt64
deriving DecidableEq, Repr

namespace WordType

def width : WordType → Nat
  | .int8 | .uint8 => 1
  | .int16 | .uint16 => 2
  | .int32 | .uint32 | .float32 | .hexInt32 => 4
  | .int64 | .uint64 | .float64 | .pointer | .filetime | .hexInt64 => 8

abbrev bits (t : WordType) : Nat := 8 * t.width

def isSigned : WordType → Bool
  | .int8 | .int16 | .int32 | .int64 => true
  | _ => false

/-- The types whose values count something, so that a length may refer to them. -/
def isIntegral : WordType → Bool
  | .float32 | .float64 | .pointer | .filetime => false
  | _ => true

def name : WordType → String
  | .int8 => "int8"
  | .int16 => "int16"
  | .int32 => "int32"
  | .int64 => "int64"
  | .uint8 => "uint8"
  | .uint16 => "uint16"
  | .uint32 => "uint32"
  | .uint64 => "uint64"
  | .float32 => "float32"
  | .float64 => "float64"
  | .pointer => "pointer"
  | .filetime => "filetime"
  | .hexInt32 => "hex_int32"
  | .hexInt64 => "hex_int64"

def all : List WordType :=
  [.int8, .int16, .int32, .int64, .uint8, .uint16, .uint32, .uint64, .float32, .float64, .pointer,
    .filetime, .hexInt32, .hexInt64]

theorem width_pos (t : WordType) : 0 < t.width := by cases t <;> decide

end WordType

inductive ScalarType where
  | word (type : WordType)
  | boolean
  | guid
deriving DecidableEq, Repr

namespace ScalarType

/-- The bytes of a scalar; a boolean is stored as a number of four bytes. -/
def width : ScalarType → Nat
  | .word t => t.width
  | .boolean => 4
  | .guid => 16

def isIntegral : ScalarType → Bool
  | .word t => t.isIntegral
  | _ => false

def name : ScalarType → String
  | .word t => t.name
  | .boolean => "boolean"
  | .guid => "guid"

def all : List ScalarType := WordType.all.map .word ++ [.boolean, .guid]

end ScalarType

inductive FieldType where
  | scalar (type : ScalarType)
  /-- Text in the codec of the reader. -/
  | ansiString
  /-- Text in UTF-16, little endian. -/
  | unicodeString
  | rawBytes
deriving DecidableEq, Repr

namespace FieldType

def naturalWidth? : FieldType → Option Nat
  | .scalar t => some t.width
  | _ => none

def isIntegral : FieldType → Bool
  | .scalar t => t.isIntegral
  | _ => false

def isString : FieldType → Bool
  | .ansiString | .unicodeString => true
  | _ => false

/-- The bytes of one element of a field: a code unit, or one byte. -/
def elementWidth : FieldType → Nat
  | .unicodeString => 2
  | _ => 1

def name : FieldType → String
  | .scalar t => t.name
  | .ansiString => "ansi_string"
  | .unicodeString => "unicode_string"
  | .rawBytes => "raw_bytes"

def all : List FieldType :=
  ScalarType.all.map .scalar ++ [.ansiString, .unicodeString, .rawBytes]

def ofName? (name : String) : Option FieldType := all.find? (·.name = name)

theorem elementWidth_pos (t : FieldType) : 0 < t.elementWidth := by
  cases t <;> simp [elementWidth]

/-- Every type is found by its own name. -/
theorem ofName?_name (t : FieldType) : ofName? t.name = some t := by
  cases t with
  | scalar s =>
    cases s with
    | word w => cases w <;> decide
    | boolean => decide
    | guid => decide
  | ansiString => decide
  | unicodeString => decide
  | rawBytes => decide

end FieldType

end EventTrace
