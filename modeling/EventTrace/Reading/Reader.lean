import EventTrace.Field.Request
import EventTrace.Layout.Registry
import EventTrace.Reading.Walk

/-!
# Readers

A record seen through a layout. A field is looked up by its name: the fields before it are walked
through, its segment is located, and its value is decoded and turned into what was asked for. Nothing
is kept from one look-up to the next, so what a look-up reports follows from the record alone.
-/

namespace EventTrace

structure ParsedField where
  spec : FieldSpec
  offset : Nat
  raw : Bytes
  value : FieldValue
deriving DecidableEq

def ParsedField.toDoc (f : ParsedField) : Json.Doc :=
  .object
    [("name", .string f.spec.name), ("type", .string f.spec.type.name), ("offset", .nat f.offset),
      ("value", f.value.toDoc)]

/-- The declaration of a name behind the declarations before it. -/
def Layout.upTo? (l : Layout) (name : String) : Option (List FieldSpec × FieldSpec) :=
  match l.fields.dropWhile (·.name ≠ name) with
  | spec :: _ => some (l.fields.takeWhile (·.name ≠ name), spec)
  | [] => none

/-- A record, the layout of its user data, and how to read it. -/
structure FieldReader where
  record : Record
  layout : Layout
  settings : Settings := {}
deriving DecidableEq

namespace FieldReader

def ofSource (source : LayoutSource) (r : Record) : Except LayoutError FieldReader :=
  match source.resolve r.key with
  | .ok layout => .ok { record := r, layout }
  | .error e => .error e

variable [Codecs] (p : FieldReader)

def data : Bytes := p.record.userData

/-- The declaration of a name behind the declarations before it, or the error that there is none. -/
def declaration (name : String) : Except ReadError (List FieldSpec × FieldSpec) :=
  match p.layout.upTo? name with
  | some d => .ok d
  | none => .error (.fieldNotFound name p.layout.key)

def locateAfter (before : List FieldSpec) (spec : FieldSpec) : Except ReadError Located :=
  match walk p.settings p.data before with
  | ⟨_, some e⟩ => .error e
  | ⟨earlier, none⟩ => (locate p.settings p.data earlier spec).map (⟨spec, ·⟩)

def locate (name : String) : Except ReadError Located :=
  match p.declaration name with
  | .error e => .error e
  | .ok (before, spec) => p.locateAfter before spec

def resolve (name : String) : Except ReadError Segment := (p.locate name).map Located.segment

def parseLocated (l : Located) : Except ReadError ParsedField :=
  match l.decode p.settings p.data with
  | .error e => .error e
  | .ok value => .ok ⟨l.spec, l.segment.offset, l.segment.value p.data, value⟩

def parsed (name : String) : Except ReadError ParsedField :=
  match p.locate name with
  | .error e => .error e
  | .ok l => p.parseLocated l

def mismatch (spec : FieldSpec) (request : Request) : ReadError :=
  .typeMismatch spec.name spec.type request.name

def answer (request : Request) (l : Located) (v : FieldValue) : Except ReadError Extract :=
  match request.extract v with
  | .ok x => .ok x
  | .error .wrongVariant => .error (mismatch l.spec request)
  | .error (.outOfRange message) =>
    .error (.outOfRange l.spec.name l.segment.offset request.name message)

/-- Reads a field as what was asked for. The declared type is looked at before any byte. -/
def read (request : Request) (name : String) : Except ReadError Extract :=
  match p.declaration name with
  | .error e => .error e
  | .ok (before, spec) =>
    if request.accepts spec.type then
      match p.locateAfter before spec with
      | .error e => .error e
      | .ok l =>
        match l.decode p.settings p.data with
        | .error e => .error e
        | .ok v => answer request l v
    else .error (mismatch spec request)

/-- Reads a field as what was asked for, with a default for every error. -/
def readOr (request : Request) (name : String) (default : Extract) : Extract :=
  match p.read request name with
  | .ok x => x
  | .error _ => default

def value (name : String) : Except ReadError FieldValue :=
  match p.parsed name with
  | .error e => .error e
  | .ok f => .ok f.value

/-- All fields in order. The error of the first that cannot be located is also that of all later
ones. -/
def fields : List (Except ReadError ParsedField) :=
  let w := walk p.settings p.data p.layout.fields
  let found := w.located.map p.parseLocated
  match w.failure with
  | none => found
  | some e => found ++ List.replicate (p.layout.length - found.length) (.error e)

/-! ## Lines -/

def locateAfterLines (before : List FieldSpec) (spec : FieldSpec) : List Log.Line :=
  let found : List Log.Line :=
    match p.locateAfter before spec with
    | .ok l => l.lines
    | .error _ => []
  (walk p.settings p.data before).lines ++ found

def locateLines (name : String) : List Log.Line :=
  match p.declaration name with
  | .error _ => []
  | .ok (before, spec) => p.locateAfterLines before spec

/-- What reading a field as something reports: nothing for a type that cannot be that. -/
def readLines (request : Request) (name : String) : List Log.Line :=
  match p.declaration name with
  | .error _ => []
  | .ok (before, spec) =>
    if request.accepts spec.type then p.locateAfterLines before spec else []

def readOrLines (request : Request) (name : String) : List Log.Line :=
  match p.read request name with
  | .ok _ => p.readLines request name
  | .error e =>
    p.readLines request name ++
      [⟨.trace, "substituting default for `" ++ name ++ "`: " ++ e.message⟩]

def fieldsLines : List Log.Line := (walk p.settings p.data p.layout.fields).lines

end FieldReader

end EventTrace
