import EventTrace.Builder.Machine
import EventTrace.Hexdump

/-!
# Dumping in words

How a machine dumps some bytes: it goes through them by places, each sixteen behind the one before,
and reads a line by the indices of its bytes. A sum or product that no word holds, a difference below
zero and an index behind the last byte stop it (`none`). How much room the text takes is not counted.

Where it does not stop, and that its text is then the dump, is the subject of
`EventTrace.Proofs.Hexdump.Machine`.
-/

namespace EventTrace.Machine

/-! ## Characters -/

def isControl (c : Char) : Bool := c.toNat < 0x20 || (0x7F ≤ c.toNat && c.toNat < 0xA0)

def isAscii (b : UInt8) : Bool := b.toNat < 0x80

/-- A byte as a character, with a point for what is of control or not of ASCII. -/
def printed (b : UInt8) : Char :=
  let c := Char.ofNat b.toNat
  if isControl c || !isAscii b then '.' else c

/-! ## Numbers -/

/-- A product that a word holds. -/
def mul (a b : Nat) : Option Nat := if a * b < lengthBound then some (a * b) else none

/-- How many words some bytes fill, the last of them maybe in part. -/
def words (length bytes : Nat) : Nat :=
  if 0 < length % bytes then length / bytes + 1 else length / bytes

def number (f : HexdumpFormat) (data : Bytes) (position : Nat) : Option Nat :=
  match f.wordBytes with
  | 1 => data[position]?.map UInt8.toNat
  | bytes => do
    let first ← mul bytes position
    let low ← data[first]?
    let next ← add first 1
    return Bytes.toNatLE [low, data[next]?.getD 0]

def column (f : HexdumpFormat) (word : Nat) : List Char :=
  ' ' :: Hex.padLeft f.digits (Nat.toDigits f.base word)

/-! ## Lines -/

def alignment (f : HexdumpFormat) (data : Bytes) : Option (List Char) :=
  if data.length < 16 then do
    let missing ← sub 16 data.length
    let width ← mul f.columnWidth (missing / f.wordBytes)
    return List.replicate width ' '
  else some []

def dumpLine (f : HexdumpFormat) (address : Nat) (data : Bytes) : Option (List Char) := do
  let numbers ← (List.range (words data.length f.wordBytes)).mapM (number f data)
  let alignment ← alignment f data
  return Hex.padLeft 8 (Nat.toDigits 16 address) ++ ':' :: numbers.flatMap (column f) ++
    alignment ++ ' ' :: ' ' :: data.map printed ++ ['\n']

/-- The lines of a dump from some place of the bytes on. -/
def dumpFrom (f : HexdumpFormat) (offset : Nat) (data : Bytes) (place : Nat) : Option (List Char) :=
  if place < data.length then do
    let full ← add place 16
    let line ← slice data place (min full data.length)
    let address ← add place offset
    let written ← dumpLine f address line
    let later ← dumpFrom f offset data (place + 16)
    return written ++ later
  else some []
termination_by data.length - place

def hexdump (data : Bytes) (offset : Nat) (f : HexdumpFormat) : Option String :=
  (dumpFrom f offset data 0).map String.ofList

end EventTrace.Machine
