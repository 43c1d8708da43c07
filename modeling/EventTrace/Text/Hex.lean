import EventTrace.Bytes

/-!
# Hexadecimal text

Bytes as pairs of digits and numbers as digits. Reading takes either case, writing uses lower case
unless the upper-case alphabet is asked for. An odd number of digits is refused before any digit is
looked at.
-/

namespace EventTrace.Hex

inductive Fault where
  | oddLength
  | badDigit (byte : UInt8) (position : Nat)
deriving DecidableEq, Repr

def lowerDigit (n : Nat) : Char :=
  if n < 10 then Char.ofNat (48 + n) else Char.ofNat (87 + n)

def upperDigit (n : Nat) : Char :=
  if n < 10 then Char.ofNat (48 + n) else Char.ofNat (55 + n)

/-- The value of a digit given by its code, in either case. -/
def digitValue? (code : Nat) : Option Nat :=
  if 48 ≤ code ∧ code ≤ 57 then some (code - 48)
  else if 97 ≤ code ∧ code ≤ 102 then some (code - 87)
  else if 65 ≤ code ∧ code ≤ 70 then some (code - 55)
  else none

def charValue? (c : Char) : Option Nat := digitValue? c.toNat

def pair (digit : Nat → Char) (b : UInt8) : List Char :=
  [digit (b.toNat / 16), digit (b.toNat % 16)]

def encodeChars (data : Bytes) : List Char := data.flatMap (pair lowerDigit)

def encode (data : Bytes) : String := String.ofList (encodeChars data)

/-- The lower-case digits of a number, without leading zeros. -/
def ofNat (n : Nat) : String := String.ofList (Nat.toDigits 16 n)

/-- Digits filled up with zeros on the left to at least `width` characters. -/
def padLeft (width : Nat) (digits : List Char) : List Char :=
  List.replicate (width - digits.length) '0' ++ digits

/-- Reads pairs of digit codes; `position` counts the codes already read. -/
def decodePairs (position : Nat) : Bytes → Except Fault Bytes
  | high :: low :: rest =>
    match digitValue? high.toNat, digitValue? low.toNat with
    | none, _ => .error (.badDigit high position)
    | some _, none => .error (.badDigit low (position + 1))
    | some h, some l => (decodePairs (position + 2) rest).map (UInt8.ofNat (16 * h + l) :: ·)
  | _ => .ok []

/-- Reads encoded text; an odd number of bytes is refused before any digit is looked at. -/
def decodeBytes (text : Bytes) : Except Fault Bytes :=
  if text.length % 2 = 1 then .error .oddLength else decodePairs 0 text

def utf8 (s : String) : Bytes := s.toList.flatMap String.utf8EncodeChar

def decode (s : String) : Except Fault Bytes := decodeBytes (utf8 s)

end EventTrace.Hex
