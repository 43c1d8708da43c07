import EventTrace.Bytes

/-!
# UTF-16, little endian

Characters as one or two 16-bit units and units as two bytes. Decoding accepts exactly the unit
sequences in which every surrogate is part of a high-low pair; units that are all ASCII are taken one
by one without looking for surrogates. `unitNul?` finds the first NUL unit on an even position.
-/

namespace EventTrace.Utf16

inductive Fault where
  | oddLength
  | unpaired
  /-- The units end after the high half of a pair. -/
  | openPair
deriving DecidableEq, Repr

/-- The wording of a fault; an open pair is an unpaired surrogate too. -/
def Fault.message : Fault → String
  | .oddLength => "odd number of bytes"
  | .unpaired | .openPair => "unpaired surrogate"

/-! ## Units and bytes -/

/-- The units that the bytes spell; an odd byte at the end belongs to none. -/
def units : Bytes → List UInt16
  | low :: high :: rest => UInt16.ofNat (low.toNat + 256 * high.toNat) :: units rest
  | _ => []

/-- The two bytes of a unit, low byte first. -/
def unitBytes (u : UInt16) : Bytes := [UInt8.ofNat u.toNat, UInt8.ofNat (u.toNat / 256)]

/-- The position of the first NUL unit, counted in bytes. -/
def unitNul? : Bytes → Option Nat
  | low :: high :: rest =>
    if low = 0 ∧ high = 0 then some 0 else (unitNul? rest).map (· + 2)
  | _ => none

/-! ## Characters and units -/

def isHigh (u : UInt16) : Bool := 0xD800 ≤ u.toNat && u.toNat < 0xDC00

def isLow (u : UInt16) : Bool := 0xDC00 ≤ u.toNat && u.toNat < 0xE000

def joinPair (high low : UInt16) : Char :=
  Char.ofNat (0x10000 + 1024 * (high.toNat - 0xD800) + (low.toNat - 0xDC00))

/-- The units of a character: one in the first plane, a surrogate pair beyond it. -/
def charUnits (c : Char) : List UInt16 :=
  if c.toNat < 0x10000 then [UInt16.ofNat c.toNat]
  else
    let n := c.toNat - 0x10000
    [UInt16.ofNat (0xD800 + n / 1024), UInt16.ofNat (0xDC00 + n % 1024)]

def decodeUnits : List UInt16 → Except Fault (List Char)
  | [] => .ok []
  | u :: rest =>
    if isHigh u then
      match rest with
      | [] => .error .openPair
      | l :: tail =>
        if isLow l then (decodeUnits tail).map (joinPair u l :: ·) else .error .unpaired
    else if isLow u then .error .unpaired
    else (decodeUnits rest).map (Char.ofNat u.toNat :: ·)

/-- The characters of units that are all ASCII, each from the low byte of its unit. -/
def asciiChars? (us : List UInt16) : Option (List Char) :=
  if us.all (·.toNat ≤ 0x7F) then some (us.map fun u => Char.ofNat u.toUInt8.toNat) else none

/-- The characters that the units spell, the short way where all of them are ASCII. -/
def readUnits (us : List UInt16) : Except Fault (List Char) :=
  match asciiChars? us with
  | some cs => .ok cs
  | none => decodeUnits us

/-! ## Text and bytes -/

def encodeChars (cs : List Char) : Bytes := (cs.flatMap charUnits).flatMap unitBytes

def encode (s : String) : Bytes := encodeChars s.toList

/-- The text of some bytes; an odd number of them is refused first. -/
def decode (data : Bytes) : Except Fault String :=
  if data.length % 2 = 1 then .error .oddLength
  else (readUnits (units data)).map String.ofList

end EventTrace.Utf16
