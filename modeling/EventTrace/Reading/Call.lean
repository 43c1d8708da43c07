import EventTrace.Reading.Reader

/-!
# Calls on a reader

A reader is used by a sequence of calls, each of which answers from the record alone.
-/

namespace EventTrace

inductive ReaderCall where
  /-- Where a field lies. -/
  | resolve (name : String)
  /-- A field as what is asked for. -/
  | read (request : Request) (name : String)
  /-- A field as it is declared. -/
  | parsed (name : String)
  /-- All fields. -/
  | fields
deriving DecidableEq, Repr

inductive ReaderReply where
  | segment (found : Except ReadError Segment)
  | extract (found : Except ReadError Extract)
  | field (found : Except ReadError ParsedField)
  | fields (found : List (Except ReadError ParsedField))

def ReadError.of? {α : Type} : Except ReadError α → Option ReadError
  | .error e => some e
  | .ok _ => none

/-- The errors that an answer holds. -/
def ReaderReply.errors : ReaderReply → List ReadError
  | .segment found => (ReadError.of? found).toList
  | .extract found => (ReadError.of? found).toList
  | .field found => (ReadError.of? found).toList
  | .fields found => found.filterMap ReadError.of?

namespace FieldReader

variable [Codecs] (p : FieldReader)

def call : ReaderCall → ReaderReply
  | .resolve name => .segment (p.resolve name)
  | .read request name => .extract (p.read request name)
  | .parsed name => .field (p.parsed name)
  | .fields => .fields p.fields

def run (calls : List ReaderCall) : List ReaderReply := calls.map p.call

end FieldReader

end EventTrace
