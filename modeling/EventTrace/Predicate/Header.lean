import EventTrace.Record.Basic

/-!
# Header tests

Comparisons with one member of a record's header. The body plays no part in them.
-/

namespace EventTrace

inductive HeaderTest where
  | eventId (v : UInt16)
  | version (v : UInt8)
  | opcode (v : UInt8)
  | level (v : UInt8)
  | task (v : UInt16)
  | processId (v : UInt32)
  | threadId (v : UInt32)
  | keywords (v : UInt64)
  /-- At least one bit of the mask is set. -/
  | keywordsAny (mask : UInt64)
  | providerId (v : Guid)
  | activityId (v : Guid)
deriving DecidableEq

namespace HeaderTest

def holds (t : HeaderTest) (h : EventHeader) : Bool :=
  match t with
  | .eventId v => h.eventId = v
  | .version v => h.version = v
  | .opcode v => h.opcode = v
  | .level v => h.level = v
  | .task v => h.task = v
  | .processId v => h.processId = v
  | .threadId v => h.threadId = v
  | .keywords v => h.keywords = v
  | .keywordsAny mask => h.keywords &&& mask ≠ 0
  | .providerId v => h.providerId = v
  | .activityId v => h.activityId = v

def inspect : HeaderTest → String
  | .eventId v => Text.applied "EventId" (toString v.toNat)
  | .version v => Text.applied "Version" (toString v.toNat)
  | .opcode v => Text.applied "Opcode" (toString v.toNat)
  | .level v => Text.applied "Level" (toString v.toNat)
  | .task v => Text.applied "Task" (toString v.toNat)
  | .processId v => Text.applied "ProcessId" (toString v.toNat)
  | .threadId v => Text.applied "ThreadId" (toString v.toNat)
  | .keywords v => Text.applied "Keywords" (toString v.toNat)
  | .keywordsAny mask => Text.applied "KeywordsAny" (toString mask.toNat)
  | .providerId v => Text.applied "ProviderId" v.text
  | .activityId v => Text.applied "ActivityId" v.text

end HeaderTest

end EventTrace
