import EventTrace.Field.Literal
import EventTrace.Json.Doc
import EventTrace.Json.Reader
import EventTrace.Record.Basic

/-!
# Record documents

A record as one line of JSON: the members of its header as numbers and GUIDs, its body as
hexadecimal text and, where a stack was captured, the length of the user data. Header flags have no
member of their own; whether a stack was captured settles them.
-/

namespace EventTrace

structure RecordDocument where
  providerId : Guid
  eventId : UInt16
  version : UInt8
  opcode : UInt8
  level : UInt8
  task : UInt16
  keywords : UInt64
  processId : UInt32
  threadId : UInt32
  activityId : Guid
  timestamp : UInt64
  /-- The body in hexadecimal, with a stack region at its end. -/
  body : String
  /-- The length of the user data, if a stack was captured behind it. -/
  declared : Option Nat
deriving DecidableEq

namespace RecordDocument

def ofRecord (r : Record) : RecordDocument where
  providerId := r.header.providerId
  eventId := r.header.eventId
  version := r.header.version
  opcode := r.header.opcode
  level := r.header.level
  task := r.header.task
  keywords := r.header.keywords
  processId := r.header.processId
  threadId := r.header.threadId
  activityId := r.header.activityId
  timestamp := r.header.timestamp
  body := Hex.encode r.body
  declared := if r.hasStack then some r.userLength else none

/-- The flags of a document's header: 64 bits, and extended information for a captured stack. -/
def flags (d : RecordDocument) : HeaderFlags :=
  let wide := HeaderFlags.singleton .header64Bit
  if d.declared.isSome then wide.insert .extendedInfo else wide

def header (d : RecordDocument) : EventHeader where
  providerId := d.providerId
  eventId := d.eventId
  version := d.version
  opcode := d.opcode
  level := d.level
  task := d.task
  keywords := d.keywords
  processId := d.processId
  threadId := d.threadId
  activityId := d.activityId
  flags := d.flags
  timestamp := d.timestamp

def withBody (d : RecordDocument) (body : Bytes) : Record :=
  match d.declared with
  | some declared => .withStack d.header body declared
  | none => .new d.header body

/-- The record that a document describes, if its body is hexadecimal text. -/
def toRecord (d : RecordDocument) : Except Hex.Fault Record := (Hex.decode d.body).map d.withBody

def invalidBody : String := "record body is not valid hex"

def invalidBodyMessage (f : Hex.Fault) : String := invalidBody ++ ": " ++ Literal.hexMessage f

def recordLines (d : RecordDocument) : List Log.Line :=
  match Hex.decode d.body, d.declared with
  | .ok body, some declared => Record.withStackLines d.header body declared
  | _, _ => []

/-! ## Writing -/

def members (d : RecordDocument) : List (String × Json.Doc) :=
  [("provider_id", .string d.providerId.text),
    ("event_id", .nat d.eventId.toNat),
    ("version", .nat d.version.toNat),
    ("opcode", .nat d.opcode.toNat),
    ("level", .nat d.level.toNat),
    ("task", .nat d.task.toNat),
    ("keywords", .nat d.keywords.toNat),
    ("process_id", .nat d.processId.toNat),
    ("thread_id", .nat d.threadId.toNat),
    ("activity_id", .string d.activityId.text),
    ("timestamp", .nat d.timestamp.toNat),
    ("body", .string d.body)]

/-- The declared length, as a member if there is one. -/
def declaredMember (d : RecordDocument) : List (String × Json.Doc) :=
  d.declared.toList.map fun n => ("declared_body_length", .nat n)

def toDoc (d : RecordDocument) : Json.Doc := .object (d.members ++ d.declaredMember)

/-! ## Reading -/

open Json Reader

def readGuid : Reader Guid := do
  match Guid.parse (← text) with
  | .ok g => pure g
  | .error _ => fail .mistyped

structure Parts where
  providerId : Option Guid := none
  eventId : Option Nat := none
  version : Option Nat := none
  opcode : Option Nat := none
  level : Option Nat := none
  task : Option Nat := none
  keywords : Option Nat := none
  processId : Option Nat := none
  threadId : Option Nat := none
  activityId : Option Guid := none
  timestamp : Option Nat := none
  body : Option String := none
  declared : Option (Option Nat) := none

/-- A number of some bits, which a document may leave out unless it is required. -/
def wordMember (name : String) (required : Bool) (bits : Nat) (get : Parts → Option Nat)
    (put : Parts → Nat → Parts) : Reader.Member Parts :=
  ⟨name, !required, fun s => (get s).isSome, fun s => put s <$> natural (wordCount bits - 1)⟩

def readMembers : List (Reader.Member Parts) :=
  [⟨"provider_id", false, (·.providerId.isSome), fun s => do
      return { s with providerId := some (← readGuid) }⟩,
    wordMember "event_id" true 16 (·.eventId) fun s n => { s with eventId := some n },
    wordMember "version" true 8 (·.version) fun s n => { s with version := some n },
    wordMember "opcode" false 8 (·.opcode) fun s n => { s with opcode := some n },
    wordMember "level" false 8 (·.level) fun s n => { s with level := some n },
    wordMember "task" false 16 (·.task) fun s n => { s with task := some n },
    wordMember "keywords" false 64 (·.keywords) fun s n => { s with keywords := some n },
    wordMember "process_id" false 32 (·.processId) fun s n => { s with processId := some n },
    wordMember "thread_id" false 32 (·.threadId) fun s n => { s with threadId := some n },
    ⟨"activity_id", true, (·.activityId.isSome), fun s => do
      return { s with activityId := some (← readGuid) }⟩,
    wordMember "timestamp" false 64 (·.timestamp) fun s n => { s with timestamp := some n },
    ⟨"body", false, (·.body.isSome), fun s => do return { s with body := some (← text) }⟩,
    ⟨"declared_body_length", true, (·.declared.isSome), fun s => do
      return { s with declared := some (← orNull (natural (wordCount 64 - 1))) }⟩]

/-- The document of the members read; a number or an activity that is left out is zero. -/
def ofParts (s : Parts) : Option RecordDocument := do
  return {
    providerId := ← s.providerId
    eventId := UInt16.ofNat (← s.eventId)
    version := UInt8.ofNat (← s.version)
    opcode := UInt8.ofNat (s.opcode.getD 0)
    level := UInt8.ofNat (s.level.getD 0)
    task := UInt16.ofNat (s.task.getD 0)
    keywords := UInt64.ofNat (s.keywords.getD 0)
    processId := UInt32.ofNat (s.processId.getD 0)
    threadId := UInt32.ofNat (s.threadId.getD 0)
    activityId := s.activityId.getD .nil
    timestamp := UInt64.ofNat (s.timestamp.getD 0)
    body := ← s.body
    declared := s.declared.join }

def read (json : String) : Except Json.Fault RecordDocument :=
  Reader.run (Reader.record readMembers {} ofParts) json

end RecordDocument

end EventTrace
