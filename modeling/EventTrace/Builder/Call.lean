import EventTrace.Builder.Basic

/-!
# Calls on a builder

A builder is used by a sequence of calls. Each has an answer and leaves a builder for the next one;
a call that fails leaves the builder as it was.
-/

namespace EventTrace

inductive BuilderCall where
  | add (a : Addition)
  | withStack (addresses : List UInt64)
  /-- Changes the header. -/
  | edit (change : EventHeader → EventHeader)
  | pack (mode : PackMode)

inductive BuilderReply where
  | done
  | record (p : PackedRecord)
deriving DecidableEq

namespace RecordBuilder

variable [Codecs]

/-- The builder that goes on after a change that may have failed, with the answer. -/
def settle (b : RecordBuilder) (changed : Except BuildError RecordBuilder) :
    RecordBuilder × Except BuildError BuilderReply :=
  match changed with
  | .ok next => (next, .ok .done)
  | .error e => (b, .error e)

def call (b : RecordBuilder) : BuilderCall → RecordBuilder × Except BuildError BuilderReply
  | .add a => b.settle (b.add a)
  | .withStack addresses => b.settle (b.withStack addresses)
  | .edit change => (b.withHeader (change b.header), .ok .done)
  | .pack mode =>
    match b.pack mode with
    | .ok p => (b.packed, .ok (.record p))
    | .error e => (b, .error e)

/-- The builder after some calls, and their answers in order. -/
def run (b : RecordBuilder) : List BuilderCall → RecordBuilder × List (Except BuildError BuilderReply)
  | [] => (b, [])
  | c :: rest =>
    let (next, reply) := b.call c
    let (last, replies) := run next rest
    (last, reply :: replies)

def callLines (b : RecordBuilder) : BuilderCall → List Log.Line
  | .pack mode => b.packLines mode
  | _ => []

end RecordBuilder

end EventTrace
