import EventTrace.Text.Hex

/-!
# Hex dumps

Bytes for the eye: sixteen to a line, behind the address of the first. Numbers stand in columns, in
front of the bytes as characters, and a short line is filled up so that the characters of all lines
start in one column.
-/

namespace EventTrace

inductive HexdumpFormat where
  /-- Bytes in octal. -/
  | octal
  /-- Bytes in hexadecimal. -/
  | canonical
  /-- Little-endian words of two bytes in hexadecimal. -/
  | words
deriving DecidableEq, Repr

namespace HexdumpFormat

def wordBytes : HexdumpFormat → Nat
  | .octal | .canonical => 1
  | .words => 2

def base : HexdumpFormat → Nat
  | .octal => 8
  | .canonical | .words => 16

def digits : HexdumpFormat → Nat
  | .octal => 3
  | .canonical => 2
  | .words => 4

/-- The characters of a number and the space before it. -/
def columnWidth (f : HexdumpFormat) : Nat := f.digits + 1

end HexdumpFormat

namespace Hexdump

def lineBytes : Nat := 16

/-- A byte as a character, or as a point where it is no printable one of ASCII. -/
def shown (b : UInt8) : Char :=
  if 0x20 ≤ b.toNat ∧ b.toNat ≤ 0x7E then Char.ofNat b.toNat else '.'

/-- The column of a number; a byte that lacks its second half is a word with zeros there. -/
def column (f : HexdumpFormat) (word : Bytes) : List Char :=
  ' ' :: Hex.padLeft f.digits (Nat.toDigits f.base word.toNatLE)

def columns (f : HexdumpFormat) (line : Bytes) : List Char :=
  (line.chunks f.wordBytes).flatMap (column f)

/-- Spaces in place of the columns that a short line lacks. -/
def filling (f : HexdumpFormat) (line : Bytes) : List Char :=
  List.replicate (f.columnWidth * ((lineBytes - line.length) / f.wordBytes)) ' '

def line (f : HexdumpFormat) (address : Nat) (data : Bytes) : List Char :=
  Hex.padLeft 8 (Nat.toDigits 16 address) ++ ':' :: columns f data ++ filling f data ++
    ' ' :: ' ' :: data.map shown

/-- The lines of a dump, the first of which has the given address. -/
def lines (f : HexdumpFormat) (offset : Nat) (data : Bytes) : List (List Char) :=
  (data.chunks lineBytes).mapIdx fun i piece => line f (offset + lineBytes * i) piece

end Hexdump

def hexdump (data : Bytes) (offset : Nat) (f : HexdumpFormat) : String :=
  String.ofList ((Hexdump.lines f offset data).flatMap (· ++ ['\n']))

end EventTrace
