import EventTrace.Text.CodePage
import EventTrace.Text.Utf16
import EventTrace.Text.Utf8

/-!
# Codecs

The encodings that single-byte strings of a record may be stored in. Both directions are strict: a
sequence that is no text and a character without bytes are faults. Beside the encodings known here a
caller may bring others along, by their names; what those do is a parameter of everything that reads
or writes strings (`Codecs`).
-/

namespace EventTrace

inductive Codec where
  | windows1252
  | ascii
  | latin1
  | utf8
  | windows1251
  | windows1253
  | utf16le
  /-- An encoding that a caller brings along. -/
  | other (name : String)
deriving DecidableEq, Repr

namespace Codec

inductive Fault where
  | invalidSequence
  /-- The bytes end inside a character. -/
  | incompleteSequence
  | unrepresentable
  /-- What an encoding of the caller's says. -/
  | other (message : String)
deriving DecidableEq, Repr

def Fault.message : Fault → String
  | .invalidSequence => "invalid sequence"
  | .incompleteSequence => "incomplete sequence"
  | .unrepresentable => "unrepresentable character"
  | .other message => message

end Codec

/-- What the encodings that callers bring along do, by their names. -/
class Codecs where
  decode : String → Bytes → Except Codec.Fault String
  encode : String → String → Except Codec.Fault Bytes

/-- Where none is brought along, every text and all bytes are refused. -/
instance (priority := low) : Codecs where
  decode _ _ := .error .invalidSequence
  encode _ _ := .error .unrepresentable

namespace Codec

def all : List Codec :=
  [.windows1252, .ascii, .latin1, .utf8, .windows1251, .windows1253, .utf16le]

def name : Codec → String
  | .windows1252 => "windows-1252"
  | .ascii => "ascii"
  | .latin1 => "iso-8859-1"
  | .utf8 => "utf-8"
  | .windows1251 => "windows-1251"
  | .windows1253 => "windows-1253"
  | .utf16le => "utf-16le"
  | .other name => name

def ofName? (name : String) : Option Codec := all.find? (·.name = name)

/-- The page of a codec that stores one byte per character. -/
def page? : Codec → Option CodePage
  | .windows1252 => some .windows1252
  | .ascii => some .ascii
  | .latin1 => some .latin1
  | .windows1251 => some .windows1251
  | .windows1253 => some .windows1253
  | .utf8 | .utf16le | .other _ => none

/-- Whether ASCII text is stored as itself. -/
def isAsciiCompatible (c : Codec) : Bool := c ≠ .utf16le

/-- The text of UTF-16 bytes: a lone surrogate is seen before an end inside a character. -/
def decodeUtf16 (data : Bytes) : Except Fault String :=
  match Utf16.decodeUnits (Utf16.units data) with
  | .error .openPair => .error .incompleteSequence
  | .error _ => .error .invalidSequence
  | .ok cs => if data.length % 2 = 1 then .error .incompleteSequence else .ok (String.ofList cs)

def decode [Codecs] (c : Codec) (data : Bytes) : Except Fault String :=
  match c.page?, c with
  | some page, _ =>
    match page.decode data with
    | none => .error .invalidSequence
    | some cs => .ok (String.ofList cs)
  | none, .utf16le => decodeUtf16 data
  | none, .other name => Codecs.decode name data
  | none, _ =>
    match Utf8.decode data with
    | .error .invalid => .error .invalidSequence
    | .error .incomplete => .error .incompleteSequence
    | .ok s => .ok s

def encode [Codecs] (c : Codec) (s : String) : Except Fault Bytes :=
  match c.page?, c with
  | some page, _ =>
    match page.encode s.toList with
    | none => .error .unrepresentable
    | some data => .ok data
  | none, .utf16le => .ok (Utf16.encode s)
  | none, .other name => Codecs.encode name s
  | none, _ => .ok (Utf8.encode s)

end Codec

end EventTrace
