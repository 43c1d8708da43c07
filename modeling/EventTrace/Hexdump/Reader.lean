import EventTrace.Decimal.Literal
import EventTrace.Hexdump

/-!
# Reading hex dumps

The bytes that a dump was made of, from its numbers alone. As the numbers of every line stand in the
same columns behind its address, nothing has to be known about the characters that follow them.
-/

namespace EventTrace.Hexdump

/-- How far behind its address the characters of a line start. -/
def textColumn (f : HexdumpFormat) : Nat := f.columnWidth * (lineBytes / f.wordBytes) + 2

def readNumber (f : HexdumpFormat) (digits : List Char) : Option Bytes :=
  match Decimal.readDigits f.base (wordCount (8 * f.wordBytes) - 1) .tooLarge 0 digits with
  | .ok n => some (Bytes.ofNatLE f.wordBytes n)
  | .error _ => none

/-- The parts between the spaces of a line, in front of its characters and behind its address. -/
def numbersIn (f : HexdumpFormat) (line : List Char) : List (List Char) :=
  let columns := ((line.dropWhile (· ≠ ':')).drop 1).take (textColumn f)
  (columns.splitOn ' ').filter (· ≠ [])

def readLine (f : HexdumpFormat) (line : List Char) : Option Bytes :=
  ((numbersIn f line).mapM (readNumber f)).map List.flatten

def read (f : HexdumpFormat) (dump : String) : Option Bytes :=
  ((dump.toList.splitOn '\n').mapM (readLine f)).map List.flatten

end EventTrace.Hexdump
