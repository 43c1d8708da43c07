import EventTrace.Decimal.Literal
import EventTrace.Field.Display
import EventTrace.Time.Reading

/-!
# Literals

Texts that stand for values of a declared type, and assignments of such texts to names. Blanks
around a literal are ignored, except in strings, which stand for themselves.
-/

namespace EventTrace.Literal

inductive Fault where
  | whole (fault : Decimal.WholeFault)
  | float (fault : Decimal.FloatFault)
  | hex (fault : Hex.Fault)
  | guid (fault : Guid.Invalid)
  | notBoolean (text : String)
  /-- A whole number that the type cannot hold. -/
  | outOfRange (text : String)
deriving DecidableEq, Repr

/-- The wording of a fault in hexadecimal pairs; the offending byte is shown as the character with
its number. -/
def hexMessage : Hex.Fault → String
  | .oddLength => "Odd number of digits"
  | .badDigit byte position =>
    "Invalid character " ++ Text.quotedChar (Char.ofNat byte.toNat) ++ " at position " ++
      toString position

def Fault.message : Fault → String
  | .whole f => f.message
  | .float f => f.message
  | .hex f => hexMessage f
  | .guid f => f.message
  | .notBoolean text => "`" ++ text ++ "` is not a boolean"
  | .outOfRange text => "`" ++ text ++ "` is out of range"

/-- Reads a whole number: base sixteen after a mark, base ten otherwise. A sign follows the mark. -/
def readInteger : List Char → Except Decimal.WholeFault Int
  | '0' :: 'x' :: digits | '0' :: 'X' :: digits => Decimal.readWhole 16 digits
  | cs => Decimal.readWhole 10 cs

/-- The least and the greatest number that a word of the type can spell. -/
def wordRange (t : WordType) : Int × Int :=
  let count (bits : Nat) : Int := Int.ofNat (wordCount bits)
  if t.isSigned then (-count (t.bits - 1), count (t.bits - 1) - 1) else (0, count t.bits - 1)

def readWord (t : WordType) (cs : List Char) : Except Fault FieldValue :=
  match readInteger cs with
  | .error f => .error (.whole f)
  | .ok n =>
    if (wordRange t).1 ≤ n ∧ n ≤ (wordRange t).2 then
      .ok (.scalar (.word t (BitVec.ofInt t.bits n)))
    else .error (.outOfRange (String.ofList cs))

/-- Reads a FILETIME: an instant, or else its ticks. -/
def readFileTime (cs : List Char) : Except Fault FieldValue :=
  match Time.readInstant cs with
  | some t => .ok (.scalar (.word .filetime (BitVec.ofNat _ (FileTime.ofInstant t))))
  | none => readWord .filetime cs

def readBoolean (cs : List Char) : Except Fault FieldValue :=
  let text := String.ofList cs
  if text = "true" ∨ text = "1" then .ok (.scalar (.boolean true))
  else if text = "false" ∨ text = "0" then .ok (.scalar (.boolean false))
  else .error (.notBoolean text)

def readWordForm (t : WordType) (cs : List Char) : Except Fault FieldValue :=
  match t.form with
  | .float f =>
    match Decimal.readFloat f cs with
    | .error e => .error (.float e)
    | .ok pattern => .ok (.scalar (.word t (BitVec.ofNat t.bits pattern)))
  | .time => readFileTime cs
  | .whole | .hex => readWord t cs

def parse (type : FieldType) (text : String) : Except Fault FieldValue :=
  let trimmed := Text.trimChars text.toList
  match type with
  | .scalar (.word t) => readWordForm t trimmed
  | .scalar .boolean => readBoolean trimmed
  | .scalar .guid =>
    match Guid.parse text with
    | .error e => .error (.guid e)
    | .ok g => .ok (.scalar (.guid g))
  | .ansiString => .ok (.ansiString text)
  | .unicodeString => .ok (.unicodeString text)
  | .rawBytes =>
    match Hex.decode (String.ofList trimmed) with
    | .error e => .error (.hex e)
    | .ok data => .ok (.bytes data)

/-! ## Assignments -/

structure Assignment where
  name : String
  text : String
deriving DecidableEq, Repr

/-- Splits at the first equals sign; without one, or with nothing before it, there is no
assignment. -/
def Assignment.parse? (s : String) : Option Assignment :=
  let cs := s.toList
  let name := cs.takeWhile (· ≠ '=')
  match cs.drop name.length with
  | _ :: text => if name.isEmpty then none else some ⟨String.ofList name, String.ofList text⟩
  | [] => none

def notAssignment (s : String) : String := "expected `Name=Value`, got `" ++ s ++ "`"

end EventTrace.Literal
