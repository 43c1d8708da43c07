import EventTrace.Json.Reader
import EventTrace.Layout.Registry

/-!
# Manifests

Definitions of layouts as data, read from JSON and loaded into a registry one after the other. A
definition fails for a field without a length rule that needs one, then for what is wrong with its
fields, then for a key that was registered before; loading stops at the first definition that fails.
-/

namespace EventTrace

/-- The definition of a field; a scalar or a string may leave its rule out. -/
structure FieldDef where
  name : String
  type : FieldType
  rule : Option LengthRule
deriving DecidableEq, Repr

structure LayoutDef where
  key : LayoutKey
  name : Option String
  fields : List FieldDef
deriving DecidableEq, Repr

structure Manifest where
  layouts : List LayoutDef
deriving DecidableEq, Repr

def FieldDef.toSpec (d : FieldDef) : Except LayoutError FieldSpec :=
  match d.rule with
  | some rule => .ok ⟨d.name, d.type, rule⟩
  | none =>
    if d.type = .rawBytes then .error (.missingRule d.name d.type)
    else .ok (.natural d.name d.type)

def LayoutDef.toLayout (d : LayoutDef) : Except LayoutError Layout := do
  let fields ← d.fields.mapM FieldDef.toSpec
  let layout ← Layout.ofFields d.key fields
  .ok (layout.withName d.name)

namespace Manifest

/-- Registers definitions in order, up to the first that fails. -/
def loadInto (r : Registry) : List LayoutDef → Registry × Option LayoutError
  | [] => (r, none)
  | d :: rest =>
    match d.toLayout.bind r.register with
    | .error e => (r, some e)
    | .ok r' => loadInto r' rest

/-- What is registered of a manifest, and the error that stopped it. -/
def loadAll (m : Manifest) : Registry × Option LayoutError := loadInto .empty m.layouts

def load (m : Manifest) : Except LayoutError Registry :=
  match m.loadAll with
  | (_, some e) => .error e
  | (r, none) => .ok r

/-! ## Reading -/

open Json Reader

def ruleVariant : String → Option (Reader.Variant LengthRule)
  | "fixed" => some (.content (LengthRule.fixed <$> natural (wordCount 64 - 1)))
  | "null_terminated" => some (.plain .nullTerminated)
  | "length_prefix_field" => some (.content (LengthRule.lengthField <$> text))
  | "remainder" => some (.plain .remainder)
  | "counted" => some (.plain .counted)
  | _ => none

def readRule : Reader LengthRule := tagged ruleVariant

def readType : Reader FieldType :=
  tagged fun name => (FieldType.ofName? name).map .plain

/-- The members of a field's definition read so far. -/
structure FieldParts where
  name : Option String := none
  type : Option FieldType := none
  rule : Option (Option LengthRule) := none

def fieldMembers : List (Reader.Member FieldParts) :=
  [⟨"name", false, (·.name.isSome), fun s => do return { s with name := some (← text) }⟩,
    ⟨"type", false, (·.type.isSome), fun s => do return { s with type := some (← readType) }⟩,
    ⟨"length", true, (·.rule.isSome), fun s => do
      return { s with rule := some (← orNull readRule) }⟩]

def readField : Reader FieldDef :=
  Reader.record fieldMembers {} fun s => do
    return ⟨← s.name, ← s.type, s.rule.join⟩

structure LayoutParts where
  eventId : Option Nat := none
  version : Option Nat := none
  name : Option (Option String) := none
  fields : Option (List FieldDef) := none

def layoutMembers : List (Reader.Member LayoutParts) :=
  [⟨"event_id", false, (·.eventId.isSome), fun s => do
      return { s with eventId := some (← natural (wordCount 16 - 1)) }⟩,
    ⟨"version", false, (·.version.isSome), fun s => do
      return { s with version := some (← natural (wordCount 8 - 1)) }⟩,
    ⟨"name", true, (·.name.isSome), fun s => do
      return { s with name := some (← orNull text) }⟩,
    ⟨"fields", false, (·.fields.isSome), fun s => do
      return { s with fields := some (← Reader.list readField) }⟩]

def readLayout : Reader LayoutDef :=
  Reader.record layoutMembers {} fun s => do
    return ⟨⟨UInt16.ofNat (← s.eventId), UInt8.ofNat (← s.version)⟩, s.name.join, ← s.fields⟩

def manifestMembers : List (Reader.Member (Option (List LayoutDef))) :=
  [⟨"layouts", false, (·.isSome), fun _ => some <$> Reader.list readLayout⟩]

def read (json : String) : Except Json.Fault Manifest :=
  Reader.run (Reader.record manifestMembers none fun s => s.map Manifest.mk) json

end Manifest

end EventTrace
