import EventTrace.Builder.Error
import EventTrace.Field.Display
import EventTrace.Reading.Reader

/-!
# Builders

Records from named values. A builder is bound to a layout, whose fields it places in their order
whatever order they are added in, or it derives a layout from what is added. It encodes values by the
rules that readers locate them by.

Nothing that fails changes a builder, and the first time that it packs is the last: every call
answers with the builder that goes on, and with an error the old one does.
-/

namespace EventTrace

/-- The rules that a value may take in a derived layout: its own width or length, a terminator behind
a string, or a count before a UTF-16 string. -/
def FieldValue.Takes (v : FieldValue) (rule : LengthRule) : Prop :=
  match v with
  | .scalar s => rule = .fixed s.type.width
  | .ansiString _ => rule = .nullTerminated
  | .unicodeString _ => rule = .nullTerminated ∨ rule = .counted
  | .bytes data => rule = .fixed data.length

/-- A value added under a name, with the rule that it takes in a derived layout. -/
structure Addition where
  name : String
  value : FieldValue
  rule : LengthRule
  takes : value.Takes rule
deriving DecidableEq

namespace Addition

def toSpec (a : Addition) : FieldSpec := ⟨a.name, a.value.type, a.rule⟩

def scalar (name : String) (s : Scalar) : Addition := ⟨name, .scalar s, .fixed s.type.width, rfl⟩

def bytes (name : String) (data : Bytes) : Addition := ⟨name, .bytes data, .fixed data.length, rfl⟩

def ansi (name text : String) : Addition := ⟨name, .ansiString text, .nullTerminated, rfl⟩

def unicode (name text : String) : Addition :=
  ⟨name, .unicodeString text, .nullTerminated, .inl rfl⟩

def counted (name text : String) : Addition := ⟨name, .unicodeString text, .counted, .inr rfl⟩

/-- Any value: a scalar has its own width, a string gets a terminator, and bytes have their own
length. -/
def ofValue (name : String) : FieldValue → Addition
  | .scalar s => scalar name s
  | .ansiString text => ansi name text
  | .unicodeString text => unicode name text
  | .bytes data => bytes name data

def inspect (a : Addition) : String :=
  Text.membered "PendingField"
    [("name", Text.quoted a.name), ("value", a.value.inspect), ("rule", a.rule.inspect)]

end Addition

structure RecordBuilder where
  header : EventHeader
  /-- The layout that the builder is bound to. -/
  target : Option Layout := none
  additions : List Addition := []
  stack : Option (List UInt64) := none
  codec : Codec := .windows1252
  finalized : Bool := false
deriving DecidableEq

structure PackedRecord where
  record : Record
  layout : Layout
deriving DecidableEq

def PackedRecord.reader (p : PackedRecord) (settings : Settings := {}) : FieldReader :=
  ⟨p.record, p.layout, settings⟩

/-- Whether a record is packed with all of its fields or with what there is. -/
inductive PackMode where
  | complete
  | incomplete
deriving DecidableEq, Repr

namespace RecordBuilder

/-- A builder that derives its layout. -/
def new (providerId : Guid) (eventId : UInt16) (version : UInt8) : RecordBuilder :=
  { header := .new providerId eventId version }

def forLayout (providerId : Guid) (layout : Layout) : RecordBuilder :=
  { new providerId layout.key.eventId layout.key.version with target := some layout }

def ofSource (source : LayoutSource) (providerId : Guid) (key : LayoutKey) :
    Except LayoutError RecordBuilder :=
  (source.resolve key).map (forLayout providerId)

variable [Codecs] (b : RecordBuilder)

def key : LayoutKey := b.header.key

/-! ## Additions -/

def value? (name : String) : Option FieldValue :=
  (b.additions.find? (·.name = name)).map Addition.value

def checkTarget (a : Addition) : Except BuildError Unit :=
  match b.target with
  | none => .ok ()
  | some layout =>
    match layout.field? a.name with
    | none => .error (.unknownField a.name layout.key)
    | some spec =>
      if spec.type = a.value.type then .ok ()
      else .error (.typeMismatch a.name spec.type a.value.type)

/-- Adds a value under a name that has none. -/
def add (a : Addition) : Except BuildError RecordBuilder :=
  if b.finalized then .error .alreadyPacked
  else if (b.value? a.name).isSome then .error (.duplicateField a.name)
  else
    match b.checkTarget a with
    | .error e => .error e
    | .ok () => .ok { b with additions := b.additions ++ [a] }

def withStack (addresses : List UInt64) : Except BuildError RecordBuilder :=
  if b.finalized then .error .alreadyPacked else .ok { b with stack := some addresses }

/-- The builder with another header, which a packed one may have too. -/
def withHeader (header : EventHeader) : RecordBuilder := { b with header }

def withCodec (codec : Codec) : RecordBuilder := { b with codec }

/-! ## Encoding -/

def encodeValue (codec : Codec) (name : String) (v : FieldValue) : Except BuildError Bytes :=
  match v.encode codec with
  | .ok raw => .ok raw
  | .error f => .error (.unencodable name codec.name f.message)

/-- Whether the bytes of a string hold its terminator. -/
def hasNul (type : FieldType) (raw : Bytes) : Bool :=
  match type with
  | .ansiString => raw.contains 0
  | .unicodeString => (Utf16.unitNul? raw).isSome
  | _ => false

/-- Puts the bytes of a value under the rule of its field: zeros behind it up to a fixed width, a
terminator behind it, or a count before it. A length in another field has to be right in a complete
record. -/
def applyRule (mode : PackMode) (spec : FieldSpec) (raw : Bytes) : Except Misfit Bytes :=
  match spec.rule with
  | .fixed width =>
    if raw.length ≤ width then .ok (raw ++ List.replicate (width - raw.length) 0)
    else .error (.tooLong raw.length width)
  | .nullTerminated => .ok (raw ++ List.replicate spec.type.elementWidth 0)
  | .lengthField reference =>
    let elements := raw.length / spec.type.elementWidth
    let held := (b.value? reference).bind FieldValue.integer?
    if mode = .incomplete ∨ held = some (Int.ofNat elements) then .ok raw
    else .error (.wrongLength reference elements held)
  | .remainder => .ok raw
  | .counted =>
    if raw.length < wordCount 16 then .ok (Bytes.ofNatLE 2 raw.length ++ raw)
    else .error (.tooLongToCount raw.length)

def encodeField (mode : PackMode) (spec : FieldSpec) (v : FieldValue) : Except BuildError Bytes :=
  match encodeValue b.codec spec.name v with
  | .error e => .error e
  | .ok raw =>
    if hasNul spec.type raw then .error (.misfit spec.name .containsNul)
    else
      match b.applyRule mode spec raw with
      | .error cause => .error (.misfit spec.name cause)
      | .ok data => .ok data

/-- The bytes of fields in order, up to the first without a value. -/
def encodeFields (mode : PackMode) : List FieldSpec → Except BuildError Bytes
  | [] => .ok []
  | spec :: later =>
    match b.value? spec.name with
    | none => .ok []
    | some v =>
      match b.encodeField mode spec v with
      | .error e => .error e
      | .ok head => (encodeFields mode later).map (head ++ ·)

/-! ## Packing -/

def missing : List String :=
  match b.target with
  | none => []
  | some layout =>
    (layout.fields.filter fun spec => (b.value? spec.name).isNone).map FieldSpec.name

def derivedLayout : Except BuildError Layout :=
  match Layout.ofFields b.key (b.additions.map Addition.toSpec) with
  | .ok layout => .ok layout
  | .error e => .error (.invalidLayout b.key e)

/-- The layout of the record: the one that the builder is bound to, or the derived one. -/
def layout : Except BuildError Layout :=
  match b.target with
  | some layout => .ok layout
  | none => b.derivedLayout

/-- The record of some user data, with the stack behind it if there is one. -/
def recordOf (data : Bytes) : Record :=
  match b.stack with
  | none => .new b.header data
  | some addresses =>
    let header := { b.header with flags := b.header.flags.insert .extendedInfo }
    .withStack header (data ++ Record.addressBytes addresses) data.length

def assemble (mode : PackMode) : Except BuildError PackedRecord :=
  match b.layout with
  | .error e => .error e
  | .ok layout =>
    match b.encodeFields mode layout.fields with
    | .error e => .error e
    | .ok data => .ok ⟨b.recordOf data, layout⟩

/-- Packs the record. A complete one must have a value for every field. -/
def pack (mode : PackMode) : Except BuildError PackedRecord :=
  if b.finalized then .error .alreadyPacked
  else if mode = .complete ∧ b.missing ≠ [] then .error (.incomplete b.key b.missing)
  else b.assemble mode

def packed : RecordBuilder := { b with additions := [], stack := none, finalized := true }

/-- What packing reports: fields left out of an incomplete record, and the sizes of what is packed. -/
def packLines (mode : PackMode) : List Log.Line :=
  let omitted : Log.Line :=
    ⟨.debug, "packing " ++ b.key.phrase ++ " without field(s) " ++ ", ".intercalate b.missing⟩
  let sizes (r : Record) : Log.Line :=
    ⟨.debug, "packed " ++ b.key.phrase ++ ": " ++ toString r.userLength ++
      " byte(s) of user data, " ++ toString r.body.length ++ " byte(s) total"⟩
  let before := if mode = .incomplete ∧ !b.finalized ∧ b.missing ≠ [] then [omitted] else []
  match b.pack mode with
  | .ok p => before ++ [sizes p.record]
  | .error _ => before

/-! ## Inspection -/

def inspect : String :=
  let target := b.target.map fun layout =>
    Text.membered "LayoutKey"
      [("event_id", toString layout.key.eventId.toNat),
        ("version", toString layout.key.version.toNat)]
  let stack := b.stack.map fun addresses =>
    Text.bracketed (addresses.map fun a => toString a.toNat)
  Text.membered "RecordBuilder"
    [("header", b.header.inspect),
      ("target", Text.optional target),
      ("pending", Text.bracketed (b.additions.map Addition.inspect)),
      ("stack", Text.optional stack),
      ("ansi_codec", Text.quoted b.codec.name),
      ("finalized", FieldValue.boolText b.finalized)]

end RecordBuilder

end EventTrace
