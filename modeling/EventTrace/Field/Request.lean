import EventTrace.Field.Display

/-!
# Requests

What a caller asks a field to be: a scalar of one type, a run of bytes, a text of either encoding,
an instant, or whatever the field is. A request is checked against the declared type before any
byte is read, and then turns the decoded value into what was asked for.
-/

namespace EventTrace

/-- What a field is asked to be. -/
inductive Request where
  | scalar (type : ScalarType)
  | bytes
  | text
  | instant
  | any
deriving DecidableEq, Repr

inductive Extract where
  | value (v : FieldValue)
  | text (s : String)
  | instant (t : Instant)
deriving DecidableEq

/-- Why a decoded value is not what was asked for. -/
inductive ConversionError where
  | wrongVariant
  | outOfRange (message : String)
deriving DecidableEq, Repr

def ConversionError.message : ConversionError → String
  | .wrongVariant => "decoded value is of another type"
  | .outOfRange message => message

namespace Request

def name : Request → String
  | .scalar t => t.name
  | .bytes => "raw_bytes"
  | .text => "string"
  | .instant => "timestamp"
  | .any => "any"

/-- The declared types that can answer a request. -/
def accepts : Request → FieldType → Bool
  | .scalar t, u => u = .scalar t
  | .bytes, u => u = .rawBytes
  | .text, u => u.isString
  | .instant, u => u = .scalar (.word .filetime)
  | .any, _ => true

def extractInstant (ticks : Nat) : Except ConversionError Extract :=
  match FileTime.toInstant? ticks with
  | some t => .ok (.instant t)
  | none =>
    .error (.outOfRange
      ("FILETIME " ++ FieldValue.hexText ticks ++ " is outside the supported range"))

def extract (r : Request) (v : FieldValue) : Except ConversionError Extract :=
  match r, v with
  | .any, v => .ok (.value v)
  | .scalar t, .scalar s => if s.type = t then .ok (.value v) else .error .wrongVariant
  | .bytes, .bytes _ => .ok (.value v)
  | .text, .ansiString s | .text, .unicodeString s => .ok (.text s)
  | .instant, .scalar (.word .filetime w) => extractInstant w.toNat
  | _, _ => .error .wrongVariant

end Request

end EventTrace
