import EventTrace.Field.Type
import EventTrace.Text.Quoted

/-!
# Length rules

How many bytes a field takes, and the declaration of a field. Without a rule of its own a field
takes the natural one of its type.
-/

namespace EventTrace

inductive LengthRule where
  | fixed (width : Nat)
  /-- Up to and including the first NUL character. -/
  | nullTerminated
  /-- As many elements as an earlier field says. -/
  | lengthField (reference : String)
  /-- All that is left. -/
  | remainder
  /-- As many bytes as the two bytes before them say. -/
  | counted
deriving DecidableEq, Repr

def LengthRule.text : LengthRule → String
  | .fixed width => "fixed(" ++ toString width ++ ")"
  | .nullTerminated => "null_terminated"
  | .lengthField reference => "length_prefix_field(" ++ reference ++ ")"
  | .remainder => "remainder"
  | .counted => "counted"

def LengthRule.inspect : LengthRule → String
  | .fixed width => Text.applied "Fixed" (toString width)
  | .nullTerminated => "NullTerminated"
  | .lengthField reference => Text.applied "LengthPrefixField" (Text.quoted reference)
  | .remainder => "Remainder"
  | .counted => "Counted"

/-- The rule of a type that is declared without one. -/
def FieldType.naturalRule (t : FieldType) : LengthRule :=
  match t.naturalWidth? with
  | some width => .fixed width
  | none => if t.isString then .nullTerminated else .remainder

structure FieldSpec where
  name : String
  type : FieldType
  rule : LengthRule
deriving DecidableEq, Repr

/-- A field with the natural rule of its type. -/
def FieldSpec.natural (name : String) (type : FieldType) : FieldSpec :=
  ⟨name, type, type.naturalRule⟩

end EventTrace
