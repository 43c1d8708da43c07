import EventTrace.Builder.Call
import EventTrace.Time.FileTime

/-!
# Ways to add a value

A value is given to a builder in one of ten ways. Each makes it an addition, with the rule that it takes
where the builder derives its layout.
-/

namespace EventTrace

/-- How a value is given to a builder. -/
inductive Adder where
  /-- A scalar of whichever type. -/
  | value (s : Scalar)
  /-- A value of whichever type. -/
  | field (v : FieldValue)
  | ansi (text : String)
  | unicode (text : String)
  /-- A UTF-16 string that is to stand behind its count. -/
  | counted (text : String)
  | bytes (data : Bytes)
  | guid (g : Guid)
  | boolean (b : Bool)
  | pointer (address : UInt64)
  /-- An instant, which is given by the last tick at or before it. -/
  | filetime (t : Instant)

def Adder.addition (name : String) : Adder → Addition
  | .value s => .scalar name s
  | .field v => .ofValue name v
  | .ansi text => .ansi name text
  | .unicode text => .unicode name text
  | .counted text => .counted name text
  | .bytes data => .bytes name data
  | .guid g => .scalar name (.guid g)
  | .boolean b => .scalar name (.boolean b)
  | .pointer address => .scalar name (.word .pointer address.toBitVec)
  | .filetime t => .scalar name (.word .filetime (BitVec.ofNat _ (FileTime.ofInstant t)))

inductive Entry where
  | add (name : String) (adder : Adder)
  | withStack (addresses : List UInt64)
  /-- Changes the header. -/
  | edit (change : EventHeader → EventHeader)

namespace Entry

def call : Entry → BuilderCall
  | .add name adder => .add (adder.addition name)
  | .withStack addresses => .withStack addresses
  | .edit change => .edit change

/-- The addition of an entry that was answered with success. -/
def added? : Entry → Except BuildError BuilderReply → Option Addition
  | .add name adder, .ok _ => some (adder.addition name)
  | _, _ => none

/-- The additions of the entries that were answered with success, in their order. -/
def added (entries : List Entry) (replies : List (Except BuildError BuilderReply)) : List Addition :=
  (entries.zip replies).filterMap fun answered => answered.1.added? answered.2

end Entry

end EventTrace
