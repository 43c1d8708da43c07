import EventTrace.Bytes

/-!
# UTF-8

A byte-wise decoder that tells a byte no sequence can hold from a text that ends inside a character.
The well-formed sequences are those of the Unicode standard: no overlong forms, no surrogates,
nothing beyond U+10FFFF.
-/

namespace EventTrace.Utf8

inductive Fault where
  | invalid
  | incomplete
deriving DecidableEq, Repr

/-- A character begun: bytes still to come, the range the next one must lie in, the bits so far. -/
structure Pending where
  missing : Nat
  least : Nat
  greatest : Nat
  bits : Nat
deriving DecidableEq, Repr

/-- What a byte above 127 begins. -/
def lead? (b : Nat) : Option Pending :=
  if 0xC2 ≤ b ∧ b ≤ 0xDF then some ⟨1, 0x80, 0xBF, b - 0xC0⟩
  else if b = 0xE0 then some ⟨2, 0xA0, 0xBF, 0⟩
  else if b = 0xED then some ⟨2, 0x80, 0x9F, 0xD⟩
  else if 0xE1 ≤ b ∧ b ≤ 0xEF then some ⟨2, 0x80, 0xBF, b - 0xE0⟩
  else if b = 0xF0 then some ⟨3, 0x90, 0xBF, 0⟩
  else if 0xF1 ≤ b ∧ b ≤ 0xF3 then some ⟨3, 0x80, 0xBF, b - 0xF0⟩
  else if b = 0xF4 then some ⟨3, 0x80, 0x8F, 4⟩
  else none

def decodeFrom : Option Pending → Bytes → Except Fault (List Char)
  | none, [] => .ok []
  | some _, [] => .error .incomplete
  | none, b :: rest =>
    if b.toNat < 0x80 then (decodeFrom none rest).map (Char.ofNat b.toNat :: ·)
    else match lead? b.toNat with
      | none => .error .invalid
      | some p => decodeFrom (some p) rest
  | some p, b :: rest =>
    if p.least ≤ b.toNat ∧ b.toNat ≤ p.greatest then
      let bits := p.bits * 64 + b.toNat % 64
      if p.missing = 1 then (decodeFrom none rest).map (Char.ofNat bits :: ·)
      else decodeFrom (some ⟨p.missing - 1, 0x80, 0xBF, bits⟩) rest
    else .error .invalid

def decode (data : Bytes) : Except Fault String := (decodeFrom none data).map String.ofList

def encode (s : String) : Bytes := s.toList.flatMap String.utf8EncodeChar

end EventTrace.Utf8
