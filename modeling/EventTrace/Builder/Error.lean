import EventTrace.Layout.Error

/-!
# Build errors

Why a value is not added to a record under construction, and why a record is not packed.
-/

namespace EventTrace

/-- Why the bytes of a value do not fit the length rule of its field. -/
inductive Misfit where
  /-- A string ends at its first NUL when it is read. -/
  | containsNul
  | tooLong (length width : Nat)
  /-- The field that holds the length was added with another value, or not at all. -/
  | wrongLength (reference : String) (elements : Nat) (held : Option Int)
  /-- The length does not fit into the two bytes of a count. -/
  | tooLongToCount (length : Nat)
deriving DecidableEq, Repr

def Misfit.message : Misfit → String
  | .containsNul => "value contains a NUL character"
  | .tooLong length width =>
    toString length ++ " byte(s) do not fit in " ++ toString width ++ " byte(s)"
  | .wrongLength reference elements held =>
    "`" ++ reference ++ "` must hold " ++ toString elements ++ " but holds " ++
      Text.optional (held.map toString)
  | .tooLongToCount length => toString length ++ " byte(s) exceed a u16 count"

inductive BuildError where
  | incomplete (key : LayoutKey) (missing : List String)
  | alreadyPacked
  | typeMismatch (name : String) (declared supplied : FieldType)
  | misfit (name : String) (cause : Misfit)
  | unknownField (name : String) (key : LayoutKey)
  | duplicateField (name : String)
  | invalidLayout (key : LayoutKey) (cause : LayoutError)
  /-- The text of a string has characters without bytes in the encoding. -/
  | unencodable (name encoding message : String)
deriving DecidableEq, Repr

def BuildError.message : BuildError → String
  | .incomplete key missing =>
    "record for " ++ key.phrase ++ " is missing field(s): " ++ ", ".intercalate missing
  | .alreadyPacked => "record builder was already packed"
  | .typeMismatch name declared supplied =>
    "field `" ++ name ++ "` is declared as " ++ declared.name ++ ", but a " ++ supplied.name ++
      " value was added"
  | .misfit name cause => "field `" ++ name ++ "` does not fit its length rule: " ++ cause.message
  | .unknownField name key =>
    "field `" ++ name ++ "` is not declared by the layout for " ++ key.phrase
  | .duplicateField name => "field `" ++ name ++ "` was added more than once"
  | .invalidLayout key cause =>
    "fields added for " ++ key.phrase ++ " do not form a valid layout: " ++ cause.message
  | .unencodable name encoding message =>
    "value of field `" ++ name ++ "` cannot be encoded as " ++ encoding ++ ": " ++ message

end EventTrace
