import EventTrace.Builder.Call

/-!
# Builders changed in place

How a call changes a builder: by one change after the other, each to what the changes before it left.
A call that fails stops where it is and takes nothing back, so whatever it changed before that stays
changed.

That a call fails before it changes anything, and otherwise does to the builder what
`RecordBuilder.call` says, is the subject of `EventTrace.Proofs.Builder.InPlace`.
-/

namespace EventTrace.InPlace

/-- Changes to a builder up to the first that fails, which keeps those before it. -/
abbrev Changes := EStateM BuildError RecordBuilder

/-! ## Additions -/

def ensureOpen : Changes Unit := do
  if (← get).finalized then throw .alreadyPacked

def ensureNew (name : String) : Changes Unit := do
  if ((← get).value? name).isSome then throw (.duplicateField name)

/-- Fails for a value that the layout of a bound builder has no field for. -/
def ensureDeclared (a : Addition) : Changes Unit := do
  match (← get).target with
  | none => return
  | some layout =>
    match layout.field? a.name with
    | none => throw (.unknownField a.name layout.key)
    | some spec =>
      if spec.type ≠ a.value.type then throw (.typeMismatch a.name spec.type a.value.type)

def add (a : Addition) : Changes Unit := do
  ensureOpen
  ensureNew a.name
  ensureDeclared a
  modify fun b => { b with additions := b.additions ++ [a] }

def withStack (addresses : List UInt64) : Changes Unit := do
  ensureOpen
  modify fun b => { b with stack := some addresses }

/-! ## Packing -/

variable [Codecs]

/-- Puts the bytes of fields behind some data, up to the first field without a value. -/
def encodeBehind (mode : PackMode) (data : Bytes) : List FieldSpec → Changes Bytes
  | [] => return data
  | spec :: later => do
    match (← get).value? spec.name with
    | none => return data
    | some v =>
      let raw ← MonadExcept.ofExcept ((← get).encodeField mode spec v)
      encodeBehind mode (data ++ raw) later

def takeStack : Changes (Option (List UInt64)) :=
  modifyGet fun b => (b.stack, { b with stack := none })

def recordWith (header : EventHeader) (data : Bytes) : Option (List UInt64) → Record
  | none => .new header data
  | some addresses =>
    .withStack { header with flags := header.flags.insert .extendedInfo }
      (data ++ Record.addressBytes addresses) data.length

/-- Encodes the fields of the layout into a record, for which it takes the stack, and closes the
builder. -/
def finish (mode : PackMode) : Changes PackedRecord := do
  let layout ← MonadExcept.ofExcept (← get).layout
  let data ← encodeBehind mode [] layout.fields
  let header := (← get).header
  let stack ← takeStack
  modify fun b => { b with finalized := true }
  modify fun b => { b with additions := [] }
  return ⟨recordWith header data stack, layout⟩

def ensureComplete (mode : PackMode) : Changes Unit := do
  let b ← get
  if mode = .complete ∧ b.missing ≠ [] then throw (.incomplete b.key b.missing)

def pack (mode : PackMode) : Changes PackedRecord := do
  ensureOpen
  ensureComplete mode
  finish mode

/-! ## Runs -/

def call : BuilderCall → Changes BuilderReply
  | .add a => do
    add a
    return .done
  | .withStack addresses => do
    withStack addresses
    return .done
  | .edit change => do
    modify fun b => b.withHeader (change b.header)
    return .done
  | .pack mode => do return .record (← pack mode)

/-- What happened at a call: the builder before it, the answer, and the builder that it left. -/
structure Event where
  before : RecordBuilder
  call : BuilderCall
  reply : Except BuildError BuilderReply
  after : RecordBuilder

namespace Event

def packs (e : Event) : Bool :=
  match e.call, e.reply with
  | .pack _, .ok _ => true
  | _, _ => false

/-- Whether a call changed the header, which no builder refuses. -/
def edits (e : Event) : Bool :=
  match e.call with
  | .edit _ => true
  | _ => false

end Event

def event (b : RecordBuilder) (c : BuilderCall) : Event :=
  match (call c).run b with
  | .ok reply after => ⟨b, c, .ok reply, after⟩
  | .error e after => ⟨b, c, .error e, after⟩

/-- What happens at some calls, each on the builder that the one before left. -/
def history (b : RecordBuilder) : List BuilderCall → List Event
  | [] => []
  | c :: rest => event b c :: history (event b c).after rest

end EventTrace.InPlace
