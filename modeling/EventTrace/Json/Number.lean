import EventTrace.Decimal.Literal
import EventTrace.Word

/-!
# JSON numbers, read

A number is read for its value or only passed over. Read for its value it must not round to
infinity, and it is a natural number only when it is written without sign, fraction and exponent and
fits 64 bits; passed over it is only checked for its form.
-/

namespace EventTrace.Json

open EventTrace.Decimal (isDigit digitsValue)

/-- The first thing that keeps a text from being the JSON asked for. -/
inductive Fault where
  /-- The text ends too early. -/
  | ended
  /-- The text is no JSON. -/
  | malformed
  /-- The JSON has another shape than the one asked for. -/
  | mistyped
deriving DecidableEq, Repr

def Fault.message : Fault → String
  | .ended => "the text ends too early"
  | .malformed => "the text is not JSON"
  | .mistyped => "a value is of another shape than expected"

/-- A number as far as it matters to a reader of naturals. -/
inductive Number where
  | natural (n : Nat)
  | other
deriving DecidableEq, Repr

structure NumberText where
  negative : Bool
  whole : List Char
  fraction : Option (List Char)
  exponent : Option Int
deriving DecidableEq, Repr

/-- At least one digit; `atEnd` is the fault of a text that ends before it. -/
def digits (atEnd : Fault) (cs : List Char) : Except Fault (List Char × List Char) :=
  match cs with
  | [] => .error atEnd
  | c :: _ =>
    if isDigit c then .ok (cs.takeWhile isDigit, cs.dropWhile isDigit) else .error .malformed

/-- The digits of a whole number, with no zero before another digit. -/
def wholeDigits (atEnd : Fault) (cs : List Char) : Except Fault (List Char × List Char) := do
  let (whole, rest) ← digits atEnd cs
  if whole.head? = some '0' ∧ 1 < whole.length then .error .malformed else .ok (whole, rest)

def fractionDigits (atEnd : Fault) (cs : List Char) :
    Except Fault (Option (List Char) × List Char) :=
  match cs with
  | '.' :: rest => (digits atEnd rest).map fun (ds, rest) => (some ds, rest)
  | _ => .ok (none, cs)

def exponentDigits (atEnd : Fault) (cs : List Char) : Except Fault (Option Int × List Char) :=
  match cs with
  | mark :: rest =>
    if mark = 'e' ∨ mark = 'E' then
      let (negative, rest) := match rest with
        | '+' :: more => (false, more)
        | '-' :: more => (true, more)
        | _ => (false, rest)
      (digits atEnd rest).map fun (ds, rest) =>
        let n := Int.ofNat (digitsValue ds)
        (some (if negative then -n else n), rest)
    else .ok (none, cs)
  | [] => .ok (none, [])

def scanNumber (atEnd : Fault) (cs : List Char) : Except Fault (NumberText × List Char) := do
  let (negative, rest) := match cs with
    | '-' :: rest => (true, rest)
    | _ => (false, cs)
  let (whole, rest) ← wholeDigits atEnd rest
  let (fraction, rest) ← fractionDigits atEnd rest
  let (exponent, rest) ← exponentDigits atEnd rest
  .ok (⟨negative, whole, fraction, exponent⟩, rest)

def greatestNatural : Nat := wordCount 64 - 1

/-- Reads digits onto a value as long as it fits 64 bits, and counts the digits read. -/
def leadingValue (value count : Nat) : List Char → Nat × Nat
  | [] => (value, count)
  | c :: rest =>
    let next := 10 * value + (c.toNat - 48)
    if greatestNatural < next then (value, count) else leadingValue next (count + 1) rest

def roundedDouble (n : Nat) : Nat :=
  match Decimal.BinaryFormat.double.magnitude (Decimal.BinaryFormat.double.encode n 1) with
  | .finite m q => m * Nat.pow 2 q.toNat / Nat.pow 2 (-q).toNat
  | _ => 0

/-- Whether a value times a power of ten is infinite, where the value, the power and their product
are rounded one after the other. -/
def overflows (value : Nat) (exponent : Int) : Bool :=
  let f := Decimal.BinaryFormat.double
  value ≠ 0 && 0 ≤ exponent &&
    (308 < exponent ||
      f.encode (roundedDouble value * roundedDouble (Nat.pow 10 exponent.toNat)) 1 = f.infinity)

/-- The value of a number; one too large for eight bytes is no JSON. -/
def NumberText.value (t : NumberText) : Except Fault Number :=
  let n := digitsValue t.whole
  if t.fraction.isNone && t.exponent.isNone && n ≤ greatestNatural then
    .ok (if t.negative then .other else .natural n)
  else
    let (value, count) := leadingValue 0 0 (t.whole ++ t.fraction.getD [])
    let exponent := t.exponent.getD 0 + t.whole.length - count
    if overflows value exponent then .error .malformed else .ok .other

end EventTrace.Json
