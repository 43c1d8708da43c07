import EventTrace.Layout.Rule

/-!
# Layout errors

Why a list of fields is no layout, why a layout is not registered, and why a record has none.
-/

namespace EventTrace

structure LayoutKey where
  eventId : UInt16
  version : UInt8
deriving DecidableEq, Repr

namespace LayoutKey

/-- The key as `IDvVERSION`. -/
def text (k : LayoutKey) : String := toString k.eventId.toNat ++ "v" ++ toString k.version.toNat

def phrase (k : LayoutKey) : String :=
  "event " ++ toString k.eventId.toNat ++ " v" ++ toString k.version.toNat

/-- Keys are ordered by event, then by version. -/
def le (a b : LayoutKey) : Bool :=
  a.eventId < b.eventId || (a.eventId = b.eventId && a.version ≤ b.version)

end LayoutKey

inductive LayoutError where
  | duplicateField (name : String)
  | unknownLengthField (name reference : String)
  | lengthFieldNotIntegral (name reference : String) (declared : FieldType)
  | invalidWidth (name : String) (declared : FieldType) (width : Nat)
  | unsupportedRule (name : String) (declared : FieldType) (rule : LengthRule)
  | remainderNotLast (name : String)
  | missingRule (name : String) (declared : FieldType)
  | notFound (key : LayoutKey)
  | alreadyRegistered (key : LayoutKey)
deriving DecidableEq, Repr

def LayoutError.message : LayoutError → String
  | .duplicateField name => "field `" ++ name ++ "` is declared more than once"
  | .unknownLengthField name reference =>
    "length of `" ++ name ++ "` refers to `" ++ reference ++ "`, which is not declared before it"
  | .lengthFieldNotIntegral name reference declared =>
    "length of `" ++ name ++ "` refers to `" ++ reference ++ "`, which is " ++ declared.name ++
      " and not an integer"
  | .invalidWidth name declared width =>
    "field `" ++ name ++ "` of type " ++ declared.name ++ " cannot have a fixed width of " ++
      toString width ++ " bytes"
  | .unsupportedRule name declared rule =>
    "field `" ++ name ++ "` of type " ++ declared.name ++ " cannot use the length rule " ++ rule.text
  | .remainderNotLast name =>
    "field `" ++ name ++ "` extends to the end of the record, so it must be declared last"
  | .missingRule name declared =>
    "field `" ++ name ++ "` of type " ++ declared.name ++ " needs an explicit length rule"
  | .notFound key => "no layout registered for " ++ key.phrase
  | .alreadyRegistered key => "a layout for " ++ key.phrase ++ " is already registered"

end EventTrace
