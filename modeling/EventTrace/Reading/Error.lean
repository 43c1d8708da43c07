import EventTrace.Field.Type
import EventTrace.Layout.Error
import EventTrace.Record.Basic

/-!
# Read errors

Why a field of a record is not what a reader asked for. An error concerns one field only.
-/

namespace EventTrace

inductive ReadError where
  | fieldNotFound (name : String) (key : LayoutKey)
  | typeMismatch (name : String) (declared : FieldType) (requested : String)
  | truncated (shortage : Shortage)
  /-- The bytes of a string are no text in its encoding. -/
  | invalidString (name : String) (offset : Nat) (encoding message : String)
  /-- The field that holds a length holds none. -/
  | lengthReference (name reference : String) (value : Int)
  /-- The value has no counterpart in what was asked for. -/
  | outOfRange (name : String) (offset : Nat) (requested message : String)
deriving DecidableEq, Repr

def ReadError.message : ReadError → String
  | .fieldNotFound name key =>
    "field `" ++ name ++ "` is not declared by the layout for " ++ key.phrase
  | .typeMismatch name declared requested =>
    "field `" ++ name ++ "` is declared as " ++ declared.name ++ ", but was requested as " ++
      requested
  | .truncated shortage => shortage.message
  | .invalidString name offset encoding message =>
    "field `" ++ name ++ "` at offset " ++ toString offset ++ " is not a valid " ++ encoding ++
      " string: " ++ message
  | .lengthReference name reference value =>
    "length field `" ++ reference ++ "` of `" ++ name ++ "` holds an unusable length (" ++
      toString value ++ ")"
  | .outOfRange name offset requested message =>
    "field `" ++ name ++ "` at offset " ++ toString offset ++ " cannot be represented as " ++
      requested ++ ": " ++ message

end EventTrace
