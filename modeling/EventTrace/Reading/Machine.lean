import EventTrace.Reading.Call

/-!
# Reading in words

How a machine goes through a record: offsets are words, a sum that no word holds, a difference below
zero and an index outside of what is indexed all stop it (`none`), and the fields found so far are a
cursor and a list of segments. Whether the data has the bytes of a field is asked without stopping.

That no record stops it, and that it answers what a reader answers, is the subject of
`EventTrace.Proofs.Reading.Machine`.
-/

namespace EventTrace.Machine

/-! ## Words and slices -/

/-- A sum that a word holds. Sums are checked, as in a build with overflow checks; in one without them a
greater sum would wrap and the machine go on. -/
def add (a b : Nat) : Option Nat := if a + b < lengthBound then some (a + b) else none

/-- A difference that is not below zero, checked in the same way. -/
def sub (a b : Nat) : Option Nat := if b ≤ a then some (a - b) else none

/-- The bytes between two offsets in order, the later of which the data reaches. -/
def slice (data : Bytes) (start stop : Nat) : Option Bytes :=
  if start ≤ stop ∧ stop ≤ data.length then some ((data.drop start).take (stop - start)) else none

/-- The bytes at an offset, or the shortage of them, also where no word holds the offset behind. -/
def get (data : Bytes) (offset length : Nat) (what : String) : Except Shortage Bytes :=
  match (add offset length).bind (slice data offset) with
  | some raw => .ok raw
  | none => .error (.of data what offset length)

/-! ## Values -/

variable [Codecs]

def decodeValue (settings : Settings) (spec : FieldSpec) (offset : Nat) (raw : Bytes) :
    Option (Except ReadError FieldValue) :=
  match spec.type with
  | .ansiString => do
    let text ← slice raw 0 ((raw.findIdx? (· = 0)).getD raw.length)
    match settings.codec.decode text with
    | .ok s => return .ok (.ansiString s)
    | .error f => return .error (.invalidString spec.name offset settings.codec.name f.message)
  | .unicodeString => do
    let whole ← sub raw.length (raw.length % 2)
    let text ← slice raw 0 ((Utf16.unitNul? raw).getD whole)
    match Utf16.decode text with
    | .ok s => return .ok (.unicodeString s)
    | .error f => return .error (.invalidString spec.name offset unicodeEncoding f.message)
  | _ => some (EventTrace.decodeValue settings spec offset raw)

/-- The fields located so far, and the offset behind the last of them. -/
structure Walker where
  cursor : Nat
  ranges : List Segment

def Walker.start : Walker := ⟨0, []⟩

variable (p : FieldReader)

def raw (s : Segment) : Option Bytes := slice p.data s.valueStart s.valueStop

def decode (position : Nat) (s : Segment) : Option (Except ReadError FieldValue) := do
  let spec ← p.layout.fields[position]?
  let raw ← raw p s
  decodeValue p.settings spec s.offset raw

/-! ## Segments -/

def locatePlain (spec : FieldSpec) (start length : Nat) : Option (Except ReadError Segment) := do
  match get p.data start length spec.name with
  | .error e => return .error (.truncated e)
  | .ok _ =>
    let stop ← add start length
    return .ok ⟨start, length, start, stop⟩

def locateTerminated (spec : FieldSpec) (start : Nat) : Option (Except ReadError Segment) := do
  let element := spec.type.elementWidth
  let rest ← sub p.data.length start
  if rest = 0 then return .error (.truncated (.of p.data spec.name start element))
  else
    let tail ← slice p.data start p.data.length
    match spec.type.nul? tail with
    | some n =>
      let length ← add n element
      let stop ← add start n
      return .ok ⟨start, length, start, stop⟩
    | none =>
      if p.settings.strict then
        let need ← add rest element
        return .error (.truncated (.of p.data spec.name start need))
      else
        let whole ← sub rest (rest % element)
        let stop ← add start whole
        return .ok ⟨start, rest, start, stop⟩

def locateRemainder (spec : FieldSpec) (start : Nat) : Option (Except ReadError Segment) := do
  let rest ← sub p.data.length start
  let whole ← sub rest (rest % spec.type.elementWidth)
  let stop ← add start whole
  return .ok ⟨start, rest, start, stop⟩

def locateCounted (spec : FieldSpec) (start : Nat) : Option (Except ReadError Segment) := do
  match get p.data start 2 spec.name with
  | .error e => return .error (.truncated e)
  | .ok counted =>
    let size := counted.toNatLE
    let body ← add start 2
    match get p.data body size spec.name with
    | .error e => return .error (.truncated e)
    | .ok _ =>
      let whole ← sub size (size % spec.type.elementWidth)
      let stop ← add body whole
      let length ← add size 2
      return .ok ⟨start, length, body, stop⟩

def referencedLength (w : Walker) (spec : FieldSpec) (reference : String) :
    Option (Except ReadError Nat) :=
  match (p.layout.position? reference).filter (· < w.ranges.length) with
  | none => some (.error (.lengthReference spec.name reference (-1)))
  | some position => do
    let s ← w.ranges[position]?
    match ← decode p position s with
    | .error e => return .error e
    | .ok v => return lengthOf spec reference (v.integer?.getD (-1))

def locate (w : Walker) (spec : FieldSpec) : Option (Except ReadError Segment) :=
  match spec.rule with
  | .fixed width => locatePlain p spec w.cursor width
  | .nullTerminated => locateTerminated p spec w.cursor
  | .lengthField reference => do
    match ← referencedLength p w spec reference with
    | .error e => return .error e
    | .ok length => locatePlain p spec w.cursor length
  | .remainder => locateRemainder p spec w.cursor
  | .counted => locateCounted p spec w.cursor

/-! ## Walks -/

/-- Locates the next field and goes behind it. -/
def step (w : Walker) : Option (Except ReadError Walker) := do
  let spec ← p.layout.fields[w.ranges.length]?
  match ← locate p w spec with
  | .error e => return .error e
  | .ok s =>
    let stop ← add s.offset s.length
    return .ok ⟨stop, w.ranges ++ [s]⟩

def walk : Nat → Option (Except ReadError Walker)
  | 0 => some (.ok .start)
  | count + 1 => do
    match ← walk count with
    | .error e => return .error e
    | .ok w => step p w

def locateAt (position : Nat) : Option (Except ReadError Segment) := do
  match ← walk p (position + 1) with
  | .error e => return .error e
  | .ok w =>
    let s ← w.ranges.getLast?
    return .ok s

/-! ## Calls -/

def materialize (position : Nat) (s : Segment) : Option (Except ReadError ParsedField) := do
  let spec ← p.layout.fields[position]?
  let raw ← raw p s
  match ← decode p position s with
  | .error e => return .error e
  | .ok v => return .ok ⟨spec, s.offset, raw, v⟩

/-- Goes on with the field at the position of a name. -/
def atPosition {α : Type} (name : String) (go : Nat → Option (Except ReadError α)) :
    Option (Except ReadError α) :=
  match p.layout.position? name with
  | none => some (.error (.fieldNotFound name p.layout.key))
  | some position => go position

def resolve (name : String) : Option (Except ReadError Segment) := atPosition p name (locateAt p)

def read (request : Request) (name : String) : Option (Except ReadError Extract) :=
  atPosition p name fun position => do
    let spec ← p.layout.fields[position]?
    if request.accepts spec.type then
      match ← locateAt p position with
      | .error e => return .error e
      | .ok s =>
        match ← decode p position s with
        | .error e => return .error e
        | .ok v => return FieldReader.answer request ⟨spec, s⟩ v
    else return .error (FieldReader.mismatch spec request)

def parsed (name : String) : Option (Except ReadError ParsedField) :=
  atPosition p name fun position => do
    match ← locateAt p position with
    | .error e => return .error e
    | .ok s => materialize p position s

/-- The next fields in order; the error of the first that is not located is also that of the others. -/
def fieldsFrom (w : Walker) : Nat → Option (List (Except ReadError ParsedField))
  | 0 => some []
  | count + 1 => do
    match ← step p w with
    | .error e => return List.replicate (count + 1) (.error e)
    | .ok w' =>
      let s ← w'.ranges.getLast?
      let field ← materialize p w.ranges.length s
      let later ← fieldsFrom w' count
      return field :: later

def fields : Option (List (Except ReadError ParsedField)) := fieldsFrom p .start p.layout.length

def call : ReaderCall → Option ReaderReply
  | .resolve name => (resolve p name).map .segment
  | .read request name => (read p request name).map .extract
  | .parsed name => (parsed p name).map .field
  | .fields => (fields p).map .fields

def run (calls : List ReaderCall) : Option (List ReaderReply) := calls.mapM (call p)

end EventTrace.Machine
