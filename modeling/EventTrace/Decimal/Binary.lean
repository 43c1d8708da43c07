/-!
# Binary floating-point formats

Bit patterns as dyadic numbers and back. `decode` reads a pattern as a sign and a magnitude
`m * 2 ^ q`; `encode` gives the pattern of the number nearest to a quotient, ties to even, so that
decoding and encoding share one description of a format.
-/

namespace EventTrace.Decimal

/-- A binary interchange format, by the bits of its significand (the leading one counted) and of its
exponent. -/
structure BinaryFormat where
  precision : Nat
  exponentBits : Nat
deriving DecidableEq, Repr

/-- A magnitude as a bit pattern gives it. -/
inductive Magnitude where
  | nan
  | infinite
  /-- The number `m * 2 ^ q`. -/
  | finite (m : Nat) (q : Int)
deriving DecidableEq, Repr

namespace BinaryFormat

def single : BinaryFormat := ⟨24, 8⟩

def double : BinaryFormat := ⟨53, 11⟩

variable (f : BinaryFormat)

def signBit : Nat := Nat.pow 2 (f.precision + f.exponentBits - 1)

def hiddenBit : Nat := Nat.pow 2 (f.precision - 1)

/-- The pattern of infinity; the patterns above it are no numbers. -/
def infinity : Nat := (Nat.pow 2 f.exponentBits - 1) * f.hiddenBit

def leastExponent : Int := 3 - Int.ofNat (Nat.pow 2 (f.exponentBits - 1)) - f.precision

def isNegative (bits : Nat) : Bool := f.signBit ≤ bits

def magnitude (bits : Nat) : Magnitude :=
  let body := bits % f.signBit
  let exponent := body / f.hiddenBit
  if body = f.infinity then .infinite
  else if f.infinity < body then .nan
  else if exponent = 0 then .finite body f.leastExponent
  else .finite (f.hiddenBit + body % f.hiddenBit) (f.leastExponent + exponent - 1)

/-- Whether two patterns are equal as numbers: what is no number differs from everything, itself
included, and the two zeros are one number. -/
def sameNumber (a b : Nat) : Bool :=
  f.magnitude a ≠ .nan && f.magnitude b ≠ .nan &&
    (a = b || (a % f.signBit = 0 && b % f.signBit = 0))

/-- Whether the numbers just below `m * 2 ^ q` lie closer than those just above it. -/
def isBinadeStart (m : Nat) (q : Int) : Bool := m = f.hiddenBit && f.leastExponent < q

end BinaryFormat

/-- The quotient rounded to the nearest whole number, a half to the even neighbour. -/
def roundEven (num den : Nat) : Nat :=
  let q := num / den
  let r := num % den
  if den < 2 * r ∨ (2 * r = den ∧ q % 2 = 1) then q + 1 else q

def scaleDown (num den : Nat) (e : Int) : Nat × Nat :=
  if 0 ≤ e then (num, den * Nat.pow 2 e.toNat) else (num * Nat.pow 2 (-e).toNat, den)

/-- The largest `e` with `2 ^ e ≤ num / den`, for positive `num` and `den`. -/
def binaryExponent (num den : Nat) : Int :=
  let e : Int := Int.ofNat num.log2 - Int.ofNat den.log2
  let scaled := scaleDown num den e
  if scaled.2 ≤ scaled.1 then e else e - 1

/-- The pattern of the number nearest to `num / den`, without a sign. -/
def BinaryFormat.encode (f : BinaryFormat) (num den : Nat) : Nat :=
  if num = 0 then 0
  else
    let e := max f.leastExponent (binaryExponent num den - (f.precision - 1))
    let scaled := scaleDown num den e
    min f.infinity ((e - f.leastExponent).toNat * f.hiddenBit + roundEven scaled.1 scaled.2)

/-- The pattern of `m * 2 ^ q`, rounded to the format, without a sign. -/
def BinaryFormat.encodeDyadic (f : BinaryFormat) (m : Nat) (q : Int) : Nat :=
  if 0 ≤ q then f.encode (m * Nat.pow 2 q.toNat) 1 else f.encode m (Nat.pow 2 (-q).toNat)

/-- The pattern in `target` of the number that `bits` stands for in `f`; no number stays none. -/
def BinaryFormat.convert (f target : BinaryFormat) (bits : Nat) : Nat :=
  let sign := if f.isNegative bits then target.signBit else 0
  match f.magnitude bits with
  | .nan => sign + target.infinity + target.hiddenBit / 2
  | .infinite => sign + target.infinity
  | .finite m q => sign + target.encodeDyadic m q

end EventTrace.Decimal
