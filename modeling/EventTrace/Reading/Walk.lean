import EventTrace.Field.Value
import EventTrace.Layout.Rule
import EventTrace.Log
import EventTrace.Reading.Error
import EventTrace.Reading.Settings

/-!
# Walks

Fields stand one behind the other, so where a field lies depends on all fields before it, and on the
value of one of them if it holds the length. A walk goes through declarations in order and locates a
segment of the data for each, up to the first that has none.
-/

namespace EventTrace

/-- Where a field lies: all of its bytes, and those of the value among them, without the count before
it or the terminator behind it. -/
structure Segment where
  offset : Nat
  length : Nat
  valueStart : Nat
  valueStop : Nat
deriving DecidableEq, Repr

namespace Segment

/-- The first offset behind a segment. -/
def stop (s : Segment) : Nat := s.offset + s.length

def value (s : Segment) (data : Bytes) : Bytes :=
  (data.drop s.valueStart).take (s.valueStop - s.valueStart)

def plain (offset length : Nat) : Segment := ⟨offset, length, offset, offset + length⟩

/-- A segment whose value is its whole elements. -/
def whole (element offset length : Nat) : Segment :=
  ⟨offset, length, offset, offset + (length - length % element)⟩

end Segment

structure Located where
  spec : FieldSpec
  segment : Segment
deriving DecidableEq, Repr

variable [Codecs]

/-! ## Values -/

/-- The position of the first NUL character of a type, in bytes. -/
def FieldType.nul? (t : FieldType) (raw : Bytes) : Option Nat :=
  match t with
  | .unicodeString => Utf16.unitNul? raw
  | _ => raw.findIdx? (· = 0)

def unicodeEncoding : String := "UTF-16LE"

/-- The text of a single-byte string, which ends at its first NUL. -/
def decodeAnsi (codec : Codec) (name : String) (offset : Nat) (raw : Bytes) :
    Except ReadError FieldValue :=
  match codec.decode (raw.takeWhile (· ≠ 0)) with
  | .ok s => .ok (.ansiString s)
  | .error f => .error (.invalidString name offset codec.name f.message)

/-- The text of a UTF-16 string, which ends at its first NUL unit or before an odd last byte. -/
def decodeUnicode (name : String) (offset : Nat) (raw : Bytes) : Except ReadError FieldValue :=
  let stop := (Utf16.unitNul? raw).getD (raw.length - raw.length % 2)
  match Utf16.decode (raw.take stop) with
  | .ok s => .ok (.unicodeString s)
  | .error f => .error (.invalidString name offset unicodeEncoding f.message)

def decodeValue (settings : Settings) (spec : FieldSpec) (offset : Nat) (raw : Bytes) :
    Except ReadError FieldValue :=
  match spec.type with
  | .scalar t =>
    match Scalar.read t raw spec.name with
    | .ok s => .ok (.scalar s)
    | .error e => .error (.truncated e)
  | .ansiString => decodeAnsi settings.codec spec.name offset raw
  | .unicodeString => decodeUnicode spec.name offset raw
  | .rawBytes => .ok (.bytes raw)

def Located.decode (l : Located) (settings : Settings) (data : Bytes) :
    Except ReadError FieldValue :=
  decodeValue settings l.spec l.segment.offset (l.segment.value data)

/-! ## Segments -/

def require (data : Bytes) (name : String) (offset need : Nat) : Except ReadError Unit :=
  match data.slice offset need name with
  | .ok _ => .ok ()
  | .error e => .error (.truncated e)

/-- No length reaches this bound. -/
def lengthBound : Nat := wordCount 64

/-- A number of elements as a number of bytes, where the field named holds the number. -/
def lengthOf (spec : FieldSpec) (reference : String) (count : Int) : Except ReadError Nat :=
  if 0 ≤ count ∧ count.toNat * spec.type.elementWidth < lengthBound then
    .ok (count.toNat * spec.type.elementWidth)
  else .error (.lengthReference spec.name reference count)

def referencedLength (settings : Settings) (data : Bytes) (earlier : List Located)
    (spec : FieldSpec) (reference : String) : Except ReadError Nat :=
  match earlier.find? (·.spec.name = reference) with
  | none => .error (.lengthReference spec.name reference (-1))
  | some l =>
    match l.decode settings data with
    | .error e => .error e
    | .ok v => lengthOf spec reference (v.integer?.getD (-1))

def locatePlain (data : Bytes) (spec : FieldSpec) (start length : Nat) : Except ReadError Segment :=
  match require data spec.name start length with
  | .error e => .error e
  | .ok () => .ok (.plain start length)

/-- The segment of a terminated field. Without a terminator it is refused, or it takes all that is
left, which must be something. -/
def locateTerminated (settings : Settings) (data : Bytes) (spec : FieldSpec) (start : Nat) :
    Except ReadError Segment :=
  let element := spec.type.elementWidth
  let rest := data.length - start
  if rest = 0 then .error (.truncated (.of data spec.name start element))
  else
    match spec.type.nul? (data.drop start) with
    | some n => .ok ⟨start, n + element, start, start + n⟩
    | none =>
      if settings.strict then .error (.truncated (.of data spec.name start (rest + element)))
      else .ok (.whole element start rest)

def locateCounted (data : Bytes) (spec : FieldSpec) (start : Nat) : Except ReadError Segment :=
  match data.slice start 2 spec.name with
  | .error e => .error (.truncated e)
  | .ok counted =>
    let size := counted.toNatLE
    match require data spec.name (start + 2) size with
    | .error e => .error e
    | .ok () =>
      let value := Segment.whole spec.type.elementWidth (start + 2) size
      .ok ⟨start, size + 2, value.valueStart, value.valueStop⟩

def stopOf (earlier : List Located) : Nat :=
  match earlier.getLast? with
  | none => 0
  | some l => l.segment.stop

def locate (settings : Settings) (data : Bytes) (earlier : List Located) (spec : FieldSpec) :
    Except ReadError Segment :=
  let start := stopOf earlier
  match spec.rule with
  | .fixed width => locatePlain data spec start width
  | .nullTerminated => locateTerminated settings data spec start
  | .lengthField reference =>
    match referencedLength settings data earlier spec reference with
    | .error e => .error e
    | .ok length => locatePlain data spec start length
  | .remainder => .ok (.whole spec.type.elementWidth start (data.length - start))
  | .counted => locateCounted data spec start

/-! ## Walks -/

/-- The fields located in order, and the error that ended the walk before its last declaration. -/
structure Walk where
  located : List Located
  failure : Option ReadError
deriving DecidableEq, Repr

def walkFrom (settings : Settings) (data : Bytes) (earlier : List Located) :
    List FieldSpec → Walk
  | [] => ⟨earlier, none⟩
  | spec :: later =>
    match locate settings data earlier spec with
    | .error e => ⟨earlier, some e⟩
    | .ok s => walkFrom settings data (earlier ++ [⟨spec, s⟩]) later

def walk (settings : Settings) (data : Bytes) (specs : List FieldSpec) : Walk :=
  walkFrom settings data [] specs

omit [Codecs] in
@[simp] theorem stopOf_nil : stopOf [] = 0 := rfl

omit [Codecs] in
@[simp] theorem stopOf_append_singleton (earlier : List Located) (l : Located) :
    stopOf (earlier ++ [l]) = l.segment.stop := by
  simp [stopOf]

/-! ## Lines -/

/-- Whether a field should have a terminator and took the rest of the data without one. -/
def Located.isUnterminated (l : Located) : Bool :=
  l.spec.rule = .nullTerminated && l.segment.stop < l.segment.valueStop + l.spec.type.elementWidth

def Located.lines (l : Located) : List Log.Line :=
  let place := " at offset " ++ toString l.segment.offset
  let unterminated : Log.Line :=
    ⟨.warn, "field `" ++ l.spec.name ++ "`" ++ place ++ " has no terminator, using the remaining " ++
      toString l.segment.length ++ " byte(s)"⟩
  let found : Log.Line :=
    ⟨.trace, "field `" ++ l.spec.name ++ "` (" ++ l.spec.type.name ++ ")" ++ place ++ ", " ++
      toString l.segment.length ++ " byte(s)"⟩
  if l.isUnterminated then [unterminated, found] else [found]

def Walk.lines (w : Walk) : List Log.Line := w.located.flatMap Located.lines

end EventTrace
