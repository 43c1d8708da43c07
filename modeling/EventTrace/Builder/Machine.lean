import EventTrace.Builder.Basic
import EventTrace.Reading.Machine

/-!
# Packing in words

How a machine packs a record: every field is written behind the ones before it, into a vector that
holds a limited number of bytes. A new length that is over the limit, or that no word holds, stops the
machine (`none`). A value that is refused is an answer and does not stop it.

Which layouts and values stop it, and that it answers what a builder answers where it goes on, is the
subject of `EventTrace.Proofs.Builder.Machine`.
-/

namespace EventTrace.Machine

/-! ## Vectors -/

/-- How many bytes a vector holds at most. -/
def capacity : Nat := wordCount 63 - 1

def reserve (out : Bytes) (more : Nat) : Option Unit :=
  if out.length + more ≤ capacity then some () else none

def extend (out more : Bytes) : Option Bytes := do
  reserve out more.length
  return out ++ more

/-- Cuts bytes off, or puts zeros behind them, so that there are as many as a length says. -/
def resize (out : Bytes) (length : Nat) : Option Bytes := do
  reserve out (length - out.length)
  return out.take length ++ List.replicate (length - out.length) 0

/-- Puts zeros behind some bytes, up to a length that is the sum of theirs and a count. The sum is checked
for overflow; in a build without the checks it would wrap, and bytes would be cut off. -/
def fill (out : Bytes) (count : Nat) : Option Bytes := do
  let length ← add out.length count
  resize out length

/-! ## Fields -/

variable [Codecs] (b : RecordBuilder)

def applyRule (mode : PackMode) (spec : FieldSpec) (out raw : Bytes) :
    Option (Except Misfit Bytes) :=
  match spec.rule with
  | .fixed width =>
    if width < raw.length then some (.error (.tooLong raw.length width))
    else do
      let next ← extend out raw
      let rest ← sub width raw.length
      return .ok (← fill next rest)
  | .nullTerminated => do
    let next ← extend out raw
    return .ok (← fill next spec.type.elementWidth)
  | .lengthField reference =>
    let elements := raw.length / spec.type.elementWidth
    let held := (b.value? reference).bind FieldValue.integer?
    if mode = .complete ∧ held ≠ some (Int.ofNat elements) then
      some (.error (.wrongLength reference elements held))
    else do return .ok (← extend out raw)
  | .remainder => do return .ok (← extend out raw)
  | .counted =>
    if raw.length < wordCount 16 then do
      let next ← extend out (Bytes.ofNatLE 2 raw.length)
      return .ok (← extend next raw)
    else some (.error (.tooLongToCount raw.length))

def encodeField (mode : PackMode) (out : Bytes) (spec : FieldSpec) (v : FieldValue) :
    Option (Except BuildError Bytes) :=
  match RecordBuilder.encodeValue b.codec spec.name v with
  | .error e => some (.error e)
  | .ok raw =>
    if RecordBuilder.hasNul spec.type raw then some (.error (.misfit spec.name .containsNul))
    else do
      match ← applyRule b mode spec out raw with
      | .error cause => return .error (.misfit spec.name cause)
      | .ok next => return .ok next

/-- Puts the bytes of fields behind some in order, up to the first without a value. -/
def encodeFields (mode : PackMode) (out : Bytes) : List FieldSpec → Option (Except BuildError Bytes)
  | [] => some (.ok out)
  | spec :: later =>
    match b.value? spec.name with
    | none => some (.ok out)
    | some v => do
      match ← encodeField b mode out spec v with
      | .error e => return .error e
      | .ok next => encodeFields mode next later

/-! ## Records -/

def recordOf (data : Bytes) : Option Record :=
  match b.stack with
  | none => some (.new b.header data)
  | some addresses => do
    let header := { b.header with flags := b.header.flags.insert .extendedInfo }
    reserve data (Record.addressWidth * addresses.length)
    let body ← extend data (Record.addressBytes addresses)
    return .withStack header body data.length

def assemble (mode : PackMode) : Option (Except BuildError PackedRecord) :=
  match b.layout with
  | .error e => some (.error e)
  | .ok layout => do
    match ← encodeFields b mode [] layout.fields with
    | .error e => return .error e
    | .ok data => return .ok ⟨← recordOf b data, layout⟩

def pack (mode : PackMode) : Option (Except BuildError PackedRecord) :=
  if b.finalized then some (.error .alreadyPacked)
  else if mode = .complete ∧ b.missing ≠ [] then some (.error (.incomplete b.key b.missing))
  else assemble b mode

end EventTrace.Machine
