import EventTrace.CommandLine.Build
import EventTrace.Filter
import EventTrace.Hexdump
import EventTrace.Record.StackTrace

/-!
# The command `parse`

The records of a file with one document a line, those of them that pass all conditions, and a text
for each: its decoded fields as a line of JSON, or a dump of its body.
-/

namespace EventTrace.CommandLine.Parse

/-! ## Records -/

/-- The pieces of some data between its line feeds. A carriage return may stay at the end of a line,
where it is a blank to JSON. -/
def lines (data : Bytes) : List Bytes := data.splitOnP (· = 10)

def unreadable (path : String) (number : Nat) (cause : String) : Failure :=
  ⟨"failed to read line " ++ toString number ++ " of " ++ ticked path, some cause⟩

/-- The record of a line; a blank line has none. -/
def recordOf (path : String) (number : Nat) (line : Bytes) : Except Failure (Option Record) :=
  let place := "line " ++ toString number ++ " of " ++ ticked path
  match Utf8.decode line with
  | .error _ => .error (unreadable path number "the line is not text")
  | .ok text =>
    if Text.trim text = "" then .ok none
    else
      match RecordDocument.read text with
      | .error f => .error ⟨place ++ " is not a record", some f.message⟩
      | .ok d =>
        match d.toRecord with
        | .error f => .error ⟨place, some (RecordDocument.invalidBodyMessage f)⟩
        | .ok r => .ok (some r)

def records (path : String) (data : Bytes) : Except Failure (List Record) := do
  let found ← (lines data).zipIdx.mapM fun line => recordOf path (line.2 + 1) line.1
  return found.filterMap id

/-! ## Conditions -/

/-- A command's conditions leave no marks. -/
abbrev Condition := Predicate Empty

/-- Whether a field agrees with the value that a literal has in the field's own type. -/
def literalAgrees (name text : String) (p : FieldReader) : Bool :=
  match p.layout.field? name with
  | none => false
  | some spec =>
    match Literal.parse spec.type text, p.value name with
    | .ok expected, .ok actual => actual.agrees expected
    | _, _ => false

def fieldEquals (a : Literal.Assignment) : Condition :=
  .custom fun p => ⟨literalAgrees a.name a.text p, { lines := p.locateLines a.name }⟩

def fieldContains (a : Literal.Assignment) : Condition := .text a.name .contains a.text .ordinal

/-- All conditions of the options: those on the header come first. -/
def condition (o : ParseOptions) : Except Failure Condition := do
  let header := o.eventId.toList.map fun id => Predicate.header (.eventId id)
  let equal ← o.fieldEq.mapM assignmentOf
  let contained ← o.contains.mapM assignmentOf
  return .allOf (header ++ equal.map fieldEquals ++ contained.map fieldContains)

/-! ## Output -/

/-- A field of a record, or the error in its place. -/
def fieldMember (spec : FieldSpec) (f : Except ReadError ParsedField) : String × Json.Doc :=
  match f with
  | .ok f => (spec.name, f.value.toWideDoc)
  | .error e => (spec.name, .object [("error", .string e.message)])

def recordDoc (p : FieldReader) : Json.Doc :=
  let h := p.record.header
  let name := p.layout.eventName.toList.map fun n => ("event_name", Json.Doc.string n)
  let time := h.time?.toList.map fun t => ("timestamp", Json.Doc.string t.text)
  let addresses := ((StackTrace.ofRecord p.record).drain .innermost).map fun a =>
    Json.Doc.string (FieldValue.hexText a.toNat)
  let stack := if p.record.hasStack then [("stack", Json.Doc.array addresses)] else []
  .object
    ([("provider_id", .string h.providerId.text), ("event_id", .nat h.eventId.toNat),
      ("version", .nat h.version.toNat)] ++
    name ++ time ++
    [("fields", .object (List.zipWith fieldMember p.layout.fields p.fields))] ++ stack)

/-- The dump of a record's body under a line that names its event. -/
def dump (r : Record) : String :=
  r.key.phrase ++ " (" ++ toString r.body.length ++ " byte(s))\n" ++ hexdump r.body 0 .canonical

/-- What is shown of a record; without a layout there are no fields to show. -/
def shown (o : ParseOptions) (registry : Registry) (r : Record) : String :=
  if o.hexdump then dump r
  else
    match registry.resolve r.key with
    | .error _ => ""
    | .ok layout => (recordDoc ⟨r, layout, o.settings⟩).render ++ "\n"

def output (o : ParseOptions) (registry : Registry) (all : List Record) : Except Failure String := do
  let condition ← condition o
  let batch := filterRecords condition (.registry registry) o.settings all
  return String.join (batch.kept.map (shown o registry))

end EventTrace.CommandLine.Parse
