import EventTrace.Decimal.Binary
import EventTrace.Word

/-!
# Number literals

Whole numbers in base ten or sixteen within the range of 128-bit signed integers, and floating-point
numbers rounded to a binary format.
-/

namespace EventTrace.Decimal

/-! ## Whole numbers -/

inductive WholeFault where
  | empty
  | badDigit
  | tooLarge
  | tooSmall
deriving DecidableEq, Repr

def WholeFault.message : WholeFault → String
  | .empty => "cannot parse integer from empty string"
  | .badDigit => "invalid digit found in string"
  | .tooLarge => "number too large to fit in target type"
  | .tooSmall => "number too small to fit in target type"

def digitIn? (base : Nat) (c : Char) : Option Nat :=
  let n := c.toNat
  let v? :=
    if 48 ≤ n ∧ n ≤ 57 then some (n - 48)
    else if 97 ≤ n ∧ n ≤ 122 then some (n - 87)
    else if 65 ≤ n ∧ n ≤ 90 then some (n - 55)
    else none
  v?.filter (· < base)

/-- Reads digits onto `acc`. At each digit a character that is none is seen before a magnitude
beyond `limit`. -/
def readDigits (base limit : Nat) (overflow : WholeFault) : Nat → List Char → Except WholeFault Nat
  | acc, [] => .ok acc
  | acc, c :: rest =>
    match digitIn? base c with
    | none => .error .badDigit
    | some d =>
      if limit < acc * base + d then .error overflow
      else readDigits base limit overflow (acc * base + d) rest

/-- The bound of the magnitudes of negative numbers of 128 bits. -/
def wholeBound : Nat := wordCount 127

/-- Reads an optional sign and at least one digit of the base. -/
def readWhole (base : Nat) : List Char → Except WholeFault Int
  | [] => .error .empty
  | [c] =>
    if c = '+' ∨ c = '-' then .error .badDigit
    else (readDigits base (wholeBound - 1) .tooLarge 0 [c]).map Int.ofNat
  | '-' :: rest => (readDigits base wholeBound .tooSmall 0 rest).map fun n => -Int.ofNat n
  | '+' :: rest => (readDigits base (wholeBound - 1) .tooLarge 0 rest).map Int.ofNat
  | cs => (readDigits base (wholeBound - 1) .tooLarge 0 cs).map Int.ofNat

/-! ## Floating-point numbers -/

inductive FloatFault where
  | empty
  | malformed
deriving DecidableEq, Repr

def FloatFault.message : FloatFault → String
  | .empty => "cannot parse float from empty string"
  | .malformed => "invalid float literal"

def isDigit (c : Char) : Bool := 48 ≤ c.toNat && c.toNat ≤ 57

def digitsValue (cs : List Char) : Nat := cs.foldl (fun n c => 10 * n + (c.toNat - 48)) 0

/-- A decimal as it is written: the digits before and after the point and the exponent. -/
structure Scientific where
  whole : List Char
  fraction : List Char
  exponent : Int
deriving DecidableEq, Repr

/-- Reads an exponent mark, an optional sign and digits, or nothing at all. -/
def readExponent : List Char → Option Int
  | [] => some 0
  | mark :: rest =>
    if mark = 'e' ∨ mark = 'E' then
      let digits := match rest with
        | '+' :: ds | '-' :: ds => ds
        | ds => ds
      if digits.isEmpty ∨ !digits.all isDigit then none
      else if rest.head? = some '-' then some (-Int.ofNat (digitsValue digits))
      else some (Int.ofNat (digitsValue digits))
    else none

/-- Reads a decimal without a sign: digits with at most one point, then an exponent. -/
def readScientific (cs : List Char) : Option Scientific :=
  let whole := cs.takeWhile isDigit
  let rest := cs.dropWhile isDigit
  let afterPoint := match rest with
    | '.' :: more => some more
    | _ => none
  let fraction := (afterPoint.map (·.takeWhile isDigit)).getD []
  let tail := (afterPoint.map (·.dropWhile isDigit)).getD rest
  if whole.isEmpty && fraction.isEmpty then none
  else (readExponent tail).map fun e => ⟨whole, fraction, e⟩

/-- The pattern nearest to a decimal. Decimals far outside every format are settled by their size
alone. -/
def Scientific.round (f : BinaryFormat) (d : Scientific) : Nat :=
  let digits := (d.whole ++ d.fraction).dropWhile (· = '0')
  let n := digitsValue digits
  let e := d.exponent - d.fraction.length
  let size := e + digits.length
  if n = 0 ∨ size < -400 then 0
  else if 400 < size then f.infinity
  else if 0 ≤ e then f.encode (n * Nat.pow 10 e.toNat) 1
  else f.encode n (Nat.pow 10 (-e).toNat)

/-- The words for infinity and for what is no number, in any case. -/
def readWord (f : BinaryFormat) (cs : List Char) : Option Nat :=
  let word := cs.map Char.toLower
  if word = "inf".toList ∨ word = "infinity".toList then some f.infinity
  else if word = "nan".toList then some (f.infinity + f.hiddenBit / 2)
  else none

/-- Reads a floating-point number as the pattern of the nearest one. -/
def readFloat (f : BinaryFormat) (cs : List Char) : Except FloatFault Nat :=
  match cs with
  | [] => .error .empty
  | c :: rest =>
    let body := if c = '-' ∨ c = '+' then rest else cs
    let sign := if c = '-' then f.signBit else 0
    match (readScientific body).map (Scientific.round f) <|> readWord f body with
    | some bits => .ok (sign + bits)
    | none => .error .malformed

end EventTrace.Decimal
