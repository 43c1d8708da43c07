import EventTrace.Layout.Basic

/-!
# Building layouts

A layout whose fields are declared one after the other. Nothing is checked before the end, when the
fields become a layout all at once.
-/

namespace EventTrace

/-- The fields declared so far, and the name of the event if it was given one. -/
structure LayoutBuilder where
  key : LayoutKey
  eventName : Option String := none
  fields : List FieldSpec := []
deriving DecidableEq, Repr

namespace LayoutBuilder

def named (b : LayoutBuilder) (name : String) : LayoutBuilder := { b with eventName := some name }

/-- Declares a field with the natural rule of its type. -/
def field (b : LayoutBuilder) (name : String) (type : FieldType) : LayoutBuilder :=
  { b with fields := b.fields ++ [.natural name type] }

def fieldWith (b : LayoutBuilder) (name : String) (type : FieldType) (rule : LengthRule) :
    LayoutBuilder :=
  { b with fields := b.fields ++ [⟨name, type, rule⟩] }

def build (b : LayoutBuilder) : Except LayoutError Layout := do
  let layout ← Layout.ofFields b.key b.fields
  match b.eventName with
  | some name => return layout.withName name
  | none => return layout

end LayoutBuilder

end EventTrace
