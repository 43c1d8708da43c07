import EventTrace.Builder.Machine
import EventTrace.CommandLine.Failure
import EventTrace.CommandLine.Options
import EventTrace.Field.Literal
import EventTrace.Layout.Manifest
import EventTrace.Record.Document

/-!
# The command `build`

A record from a layout of a manifest and literals for its fields, as a line that `parse` reads.
-/

namespace EventTrace.CommandLine

def manifestFailure (path cause : String) : Failure :=
  ⟨"failed to load layouts from " ++ ticked path, some cause⟩

def registryOf (path : String) (data : Bytes) : Except Failure Registry :=
  match Utf8.decode data with
  | .error _ => .error (manifestFailure path "the manifest is not text")
  | .ok json =>
    match Manifest.read json with
    | .error f => .error (manifestFailure path f.message)
    | .ok manifest =>
      match manifest.load with
      | .error e => .error (manifestFailure path e.message)
      | .ok registry => .ok registry

def assignmentOf (arg : String) : Except Failure Literal.Assignment :=
  match Literal.Assignment.parse? arg with
  | some a => .ok a
  | none => .error ⟨Literal.notAssignment arg, none⟩

namespace Build

def assign (layout : Layout) (b : RecordBuilder) (arg : String) : Except Failure RecordBuilder := do
  let a ← assignmentOf arg
  match layout.field? a.name with
  | none => .error ⟨layout.key.phrase ++ " has no field " ++ ticked a.name, none⟩
  | some spec =>
    match Literal.parse spec.type a.text with
    | .error f =>
      .error ⟨"invalid value for " ++ ticked a.name ++ " (" ++ spec.type.name ++ ")",
        some f.message⟩
    | .ok v =>
      match b.add (.ofValue a.name v) with
      | .error e => .error ⟨e.message, none⟩
      | .ok next => .ok next

/-- The characters behind all marks of base sixteen at their start. -/
def dropMarks : List Char → List Char
  | '0' :: 'x' :: rest => dropMarks rest
  | cs => cs

def addressOf (arg : String) : Except Failure UInt64 :=
  match readUnsigned 16 (wordCount 64) (dropMarks arg.toList) with
  | some n => .ok (UInt64.ofNat n)
  | none => .error ⟨ticked arg ++ " is not a hex address", none⟩

/-- Sets the stack that arguments spell; without arguments there is none. -/
def addStack (b : RecordBuilder) (args : List String) : Except Failure RecordBuilder :=
  if args.isEmpty then .ok b
  else do
    match b.withStack (← args.mapM addressOf) with
    | .error e => .error ⟨e.message, none⟩
    | .ok next => .ok next

def filled (o : BuildOptions) (registry : Registry) : Except Failure RecordBuilder := do
  match registry.resolve o.key with
  | .error e => .error ⟨e.message, none⟩
  | .ok layout =>
    let assigned ← o.fields.foldlM (assign layout) (.forLayout o.provider layout)
    addStack assigned o.stack

def mode (o : BuildOptions) : PackMode := if o.incomplete then .incomplete else .complete

def ofPack (packed : Except BuildError PackedRecord) : Except Failure PackedRecord :=
  match packed with
  | .error e => .error ⟨e.message, none⟩
  | .ok p => .ok p

def record (o : BuildOptions) (registry : Registry) : Except Failure PackedRecord := do
  let b ← filled o registry
  ofPack (b.pack (mode o))

/-- The record that the options describe, as a machine packs it. -/
def packed (o : BuildOptions) (registry : Registry) : Option (Except Failure PackedRecord) :=
  match filled o registry with
  | .error f => some (.error f)
  | .ok b => (Machine.pack b (mode o)).map ofPack

def lineOf (r : Record) : String := (RecordDocument.ofRecord r).toDoc.render ++ "\n"

end Build

end EventTrace.CommandLine
