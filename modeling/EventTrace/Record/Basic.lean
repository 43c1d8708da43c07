import EventTrace.Field.Value
import EventTrace.Log
import EventTrace.Record.Header

/-!
# Records

A header and a body. The body starts with the user data, which a layout describes; where a stack was
captured, the rest of the body is the stack region. Its words are return addresses, the innermost
first, and bytes that do not fill a word belong to none. Reads are bounded by the user data.
-/

namespace EventTrace

/-- Bytes wanted where there are fewer: `have` bytes from `offset` on instead of `need`. -/
structure Shortage where
  what : String
  offset : Nat
  need : Nat
  available : Nat
deriving DecidableEq, Repr

def Shortage.of (data : Bytes) (what : String) (offset need : Nat) : Shortage :=
  ⟨what, offset, need, data.length - offset⟩

def Shortage.message (s : Shortage) : String :=
  "buffer too small for " ++ s.what ++ " at offset " ++ toString s.offset ++ " (need " ++
    toString s.need ++ " bytes, have " ++ toString s.available ++ ")"

def Bytes.slice (data : Bytes) (offset length : Nat) (what : String) : Except Shortage Bytes :=
  match data.slice? offset length with
  | some s => .ok s
  | none => .error (.of data what offset length)

def Scalar.read (t : ScalarType) (raw : Bytes) (what : String) : Except Shortage Scalar :=
  match Scalar.read? t raw with
  | some s => .ok s
  | none => .error (.of raw what 0 t.width)

structure Record where
  header : EventHeader
  body : Bytes
  userLength : Nat
  hasStack : Bool
  userLength_le : userLength ≤ body.length
deriving DecidableEq

namespace Record

def new (header : EventHeader) (body : Bytes) : Record := ⟨header, body, body.length, false, by omega⟩

/-- A record with a captured stack behind the declared length of user data; a body shorter than that
has no stack region. -/
def withStack (header : EventHeader) (body : Bytes) (declared : Nat) : Record :=
  ⟨header, body, min declared body.length, true, by omega⟩

/-- What making a record with a stack reports: a declared length beyond the body. -/
def withStackLines (header : EventHeader) (body : Bytes) (declared : Nat) : List Log.Line :=
  if body.length < declared then
    [⟨.warn, "declared body length " ++ toString declared ++ " exceeds body of " ++
      toString body.length ++ " bytes for event " ++ toString header.eventId.toNat ++
      ", no stack region"⟩]
  else []

variable (r : Record)

def key : LayoutKey := r.header.key

def userData : Bytes := r.body.take r.userLength

/-- The bytes behind the user data, where a stack was captured. -/
def stackRegion? : Option Bytes := if r.hasStack then some (r.body.drop r.userLength) else none

/-! ## Stacks -/

def addressWidth : Nat := 8

def stack : List UInt64 :=
  ((r.stackRegion?.getD []).pieces addressWidth).map fun p => UInt64.ofNat p.toNatLE

/-- What going through the stack reports: bytes that do not fill an address. -/
def stackLines : List Log.Line :=
  let rest := (r.stackRegion?.getD []).length % addressWidth
  if rest = 0 then []
  else
    [⟨.warn, "stack region of event " ++ toString r.header.eventId.toNat ++ " has " ++
      toString rest ++ " trailing byte(s) that do not form an address"⟩]

/-- Return addresses as they stand in a stack region. -/
def addressBytes (addresses : List UInt64) : Bytes :=
  addresses.flatMap fun a => Bytes.ofNatLE addressWidth a.toNat

@[simp] theorem length_addressBytes (addresses : List UInt64) :
    (addressBytes addresses).length = addressWidth * addresses.length := by
  induction addresses with
  | nil => rfl
  | cons a addresses ih =>
    rw [addressBytes, List.flatMap_cons, List.length_append, Bytes.length_ofNatLE, ← addressBytes, ih,
      List.length_cons, Nat.mul_succ, Nat.add_comm]

/-! ## Reads -/

def readAt (t : ScalarType) (offset : Nat) : Except Shortage Scalar := do
  Scalar.read t (← r.userData.slice offset t.width t.name) t.name

def bytesAt (offset length : Nat) : Except Shortage Bytes :=
  r.userData.slice offset length "bytes"

@[simp] theorem length_userData : r.userData.length = r.userLength := by
  have := r.userLength_le
  simp only [userData, List.length_take]
  omega

@[simp] theorem userData_new (header : EventHeader) (body : Bytes) :
    (new header body).userData = body := by
  simp [new, userData]

end Record

end EventTrace
