import EventTrace.Decimal.Style
import EventTrace.Field.Value
import EventTrace.Json.Doc
import EventTrace.Text.Quoted
import EventTrace.Time.FileTime

/-!
# The texts of a value

A value has a plain text, a JSON value and a text for inspection. They differ for floating-point
numbers in their decimal style, and for the types that JSON has no form of its own for: those are
strings that hold the plain text.
-/

namespace EventTrace

inductive WordForm where
  | whole
  | hex
  | float (format : Decimal.BinaryFormat)
  | time
deriving DecidableEq, Repr

def WordType.form : WordType → WordForm
  | .float32 => .float .single
  | .float64 => .float .double
  | .pointer | .hexInt32 | .hexInt64 => .hex
  | .filetime => .time
  | _ => .whole

namespace FieldValue

/-- The plain text never uses an exponent and marks no whole number. A tie goes up. -/
def plainStyle : Decimal.Style where
  isPositional := fun _ => true
  wholeMark := ""
  exponentPlus := ""
  tie := .up
  nan := "NaN"
  infinity := "inf"
  negativeInfinity := "-inf"

/-- In JSON a number of eight bytes is positional from 0.00001 to below 10 ^ 16, and one of four
bytes from 0.000001 to below 10 ^ 13. What is no number is null. -/
def jsonStyle (f : Decimal.BinaryFormat) : Decimal.Style where
  isPositional := fun lead =>
    if f = .single then -6 ≤ lead && lead ≤ 12 else -5 ≤ lead && lead ≤ 15
  wholeMark := ".0"
  exponentPlus := "+"
  tie := .toEven
  nan := "null"
  infinity := "null"
  negativeInfinity := "null"

/-- For inspection a number is positional from 0.0001 to below 10 ^ 16. -/
def inspectStyle : Decimal.Style where
  isPositional := fun lead => -4 ≤ lead && lead ≤ 15
  wholeMark := ".0"
  exponentPlus := ""
  tie := .up
  nan := "NaN"
  infinity := "inf"
  negativeInfinity := "-inf"

def hexText (n : Nat) : String := "0x" ++ Hex.ofNat n

/-- A FILETIME as an instant, or as its ticks where it is none. -/
def fileTimeText (ticks : Nat) : String :=
  match FileTime.toInstant? ticks with
  | some t => t.text
  | none => toString ticks

def wordText (t : WordType) (w : BitVec t.bits) : String :=
  match t.form with
  | .whole => toString (Scalar.wordInt t w)
  | .hex => hexText w.toNat
  | .float f => plainStyle.render f w.toNat
  | .time => fileTimeText w.toNat

def boolText (b : Bool) : String := if b then "true" else "false"

def scalarText : Scalar → String
  | .word t w => wordText t w
  | .boolean b => boolText b
  | .guid g => g.text

def display : FieldValue → String
  | .scalar s => scalarText s
  | .ansiString s | .unicodeString s => s
  | .bytes data => Hex.encode data

/-! ## JSON -/

def floatDoc (f : Decimal.BinaryFormat) (pattern : Nat) : Json.Doc :=
  match f.magnitude pattern with
  | .finite _ _ => .number ((jsonStyle f).render f pattern)
  | _ => .null

def wordDoc (t : WordType) (w : BitVec t.bits) : Json.Doc :=
  match t.form with
  | .whole => .int (Scalar.wordInt t w)
  | .float f => floatDoc f w.toNat
  | .hex | .time => .string (wordText t w)

def toDoc : FieldValue → Json.Doc
  | .scalar (.word t w) => wordDoc t w
  | .scalar (.boolean b) => .bool b
  | .scalar (.guid g) => .string g.text
  | .ansiString s | .unicodeString s => .string s
  | .bytes data => .array (data.map fun b => .nat b.toNat)

/-- The JSON value of a value where all floating-point numbers are widened to eight bytes. -/
def toWideDoc : FieldValue → Json.Doc
  | .scalar (.word .float32 w) =>
    floatDoc .double (Decimal.BinaryFormat.single.convert .double w.toNat)
  | v => v.toDoc

/-! ## Inspection -/

/-- The constructor's name in an inspected value. -/
def inspectName : FieldType → String
  | .scalar (.word .int8) => "Int8"
  | .scalar (.word .int16) => "Int16"
  | .scalar (.word .int32) => "Int32"
  | .scalar (.word .int64) => "Int64"
  | .scalar (.word .uint8) => "UInt8"
  | .scalar (.word .uint16) => "UInt16"
  | .scalar (.word .uint32) => "UInt32"
  | .scalar (.word .uint64) => "UInt64"
  | .scalar (.word .float32) => "Float32"
  | .scalar (.word .float64) => "Float64"
  | .scalar (.word .pointer) => "Pointer"
  | .scalar (.word .filetime) => "FileTime"
  | .scalar (.word .hexInt32) => "HexInt32"
  | .scalar (.word .hexInt64) => "HexInt64"
  | .scalar .boolean => "Boolean"
  | .scalar .guid => "Guid"
  | .ansiString => "AnsiString"
  | .unicodeString => "UnicodeString"
  | .rawBytes => "Bytes"

def inspectContent : FieldValue → String
  | .scalar (.word t w) =>
    match t.form with
    | .float f => inspectStyle.render f w.toNat
    | _ => toString (Scalar.wordInt t w)
  | .scalar (.boolean b) => boolText b
  | .scalar (.guid g) => g.text
  | .ansiString s | .unicodeString s => Text.quoted s
  | .bytes data => Text.bracketed (data.map fun b => toString b.toNat)

def inspect (v : FieldValue) : String := Text.applied (inspectName v.type) v.inspectContent

end FieldValue

end EventTrace
