import EventTrace.Guid
import EventTrace.Layout.Error
import EventTrace.Text.Quoted
import EventTrace.Time.FileTime

/-!
# Event headers

The metadata that every event carries beside its body, with the flags that say how it was recorded.
-/

namespace EventTrace

inductive HeaderFlag where
  | extendedInfo
  | privateSession
  | stringOnly
  | traceMessage
  | noCpuTime
  | header32Bit
  | header64Bit
  | classicHeader
  | processorIndex
deriving DecidableEq, Repr

namespace HeaderFlag

def all : List HeaderFlag :=
  [.extendedInfo, .privateSession, .stringOnly, .traceMessage, .noCpuTime, .header32Bit,
    .header64Bit, .classicHeader, .processorIndex]

def mask : HeaderFlag → UInt16
  | .extendedInfo => 0x1
  | .privateSession => 0x2
  | .stringOnly => 0x4
  | .traceMessage => 0x8
  | .noCpuTime => 0x10
  | .header32Bit => 0x20
  | .header64Bit => 0x40
  | .classicHeader => 0x100
  | .processorIndex => 0x200

def name : HeaderFlag → String
  | .extendedInfo => "EXTENDED_INFO"
  | .privateSession => "PRIVATE_SESSION"
  | .stringOnly => "STRING_ONLY"
  | .traceMessage => "TRACE_MESSAGE"
  | .noCpuTime => "NO_CPUTIME"
  | .header32Bit => "HEADER_32_BIT"
  | .header64Bit => "HEADER_64_BIT"
  | .classicHeader => "CLASSIC_HEADER"
  | .processorIndex => "PROCESSOR_INDEX"

end HeaderFlag

/-- A set of flags, as bits of which only those of flags are set. -/
structure HeaderFlags where
  bits : UInt16
deriving DecidableEq, Repr

namespace HeaderFlags

def knownBits : UInt16 := HeaderFlag.all.foldl (fun bits f => bits ||| f.mask) 0

/-- The flags among some bits; the other bits are dropped. -/
def ofBits (bits : UInt16) : HeaderFlags := ⟨bits &&& knownBits⟩

def isKnown (bits : UInt16) : Bool := bits &&& knownBits = bits

def contains (s : HeaderFlags) (f : HeaderFlag) : Bool := s.bits &&& f.mask ≠ 0

def insert (s : HeaderFlags) (f : HeaderFlag) : HeaderFlags := ⟨s.bits ||| f.mask⟩

def singleton (f : HeaderFlag) : HeaderFlags := ⟨f.mask⟩

/-- The flags of a set, in the order of their declaration. -/
def toList (s : HeaderFlags) : List HeaderFlag := HeaderFlag.all.filter s.contains

def inspect (s : HeaderFlags) : String :=
  let names := s.toList.map HeaderFlag.name
  Text.applied "HeaderFlags" (if names.isEmpty then "0x0" else " | ".intercalate names)

end HeaderFlags

/-- The metadata of an event. The timestamp counts FILETIME ticks. -/
structure EventHeader where
  providerId : Guid
  eventId : UInt16
  version : UInt8
  opcode : UInt8
  level : UInt8
  task : UInt16
  keywords : UInt64
  processId : UInt32
  threadId : UInt32
  activityId : Guid
  flags : HeaderFlags
  timestamp : UInt64
deriving DecidableEq

namespace EventHeader

/-- The header of an event of a provider; all else is zero, and the flags say 64 bits. -/
def new (providerId : Guid) (eventId : UInt16) (version : UInt8) : EventHeader where
  providerId
  eventId
  version
  opcode := 0
  level := 0
  task := 0
  keywords := 0
  processId := 0
  threadId := 0
  activityId := .nil
  flags := .singleton .header64Bit
  timestamp := 0

def key (h : EventHeader) : LayoutKey := ⟨h.eventId, h.version⟩

def time? (h : EventHeader) : Option Instant := FileTime.toInstant? h.timestamp.toNat

def inspect (h : EventHeader) : String :=
  Text.membered "EventHeader"
    [("provider_id", h.providerId.text),
      ("event_id", toString h.eventId.toNat),
      ("version", toString h.version.toNat),
      ("opcode", toString h.opcode.toNat),
      ("level", toString h.level.toNat),
      ("task", toString h.task.toNat),
      ("keywords", toString h.keywords.toNat),
      ("process_id", toString h.processId.toNat),
      ("thread_id", toString h.threadId.toNat),
      ("activity_id", h.activityId.text),
      ("flags", h.flags.inspect),
      ("timestamp", toString h.timestamp.toNat)]

end EventHeader

end EventTrace
