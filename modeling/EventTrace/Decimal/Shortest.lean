import EventTrace.Decimal.Binary

/-!
# Shortest decimals

The fewest decimal digits that single out a binary floating-point number: of all decimals that lie
among the reals rounding to the number, one with the fewest digits, and of those the nearest. The
comparison is exact arithmetic on naturals. On a grid of given spacing only the two neighbours of
the number need a test: if any point of the grid rounds to the number, one of them does.
-/

namespace EventTrace.Decimal

/-- Which of two equally near decimals is taken. -/
inductive Tie where
  | toEven
  | up
deriving DecidableEq, Repr

/-- The decimal `digits * 10 ^ exponent`. -/
structure Numeral where
  digits : Nat
  exponent : Int
deriving DecidableEq, Repr

def decimalLength (n : Nat) : Nat := (Nat.toDigits 10 n).length

/-- The exponent of the leading digit of `num / den`, for positive `num` and `den`. -/
def leadingExponent (num den : Nat) : Int :=
  if den ≤ num then (decimalLength (num / den) : Int) - 1
  else -(decimalLength ((den - 1) / num) : Int)

/-- The reals that round to a number, as numerators over one denominator: the ends of the interval,
the number itself, and whether the ends round to it as well. -/
structure Rounding where
  low : Nat
  value : Nat
  high : Nat
  den : Nat
  closed : Bool
deriving DecidableEq, Repr

/-- The interval of `m * 2 ^ q`: half a step to either side, and a quarter below the first number of
a binade. -/
def Rounding.of (m : Nat) (q : Int) (binadeStart : Bool) : Rounding :=
  let up := Nat.pow 2 (q - 2).toNat
  let down := if binadeStart then 1 else 2
  ⟨(4 * m - down) * up, 4 * m * up, (4 * m + 2) * up, Nat.pow 2 (2 - q).toNat, m % 2 = 0⟩

/-- The point of the grid of spacing `10 ^ t` that rounds to the number, if there is one. -/
def Rounding.onGrid? (r : Rounding) (tie : Tie) (t : Int) : Option Numeral :=
  let widen := Nat.pow 10 (-t).toNat
  let unit := r.den * Nat.pow 10 t.toNat
  let value := r.value * widen
  let below := value / unit
  let holds (a b : Nat) : Bool := if r.closed then a ≤ b else a < b
  let lowHit := holds (r.low * widen) (below * unit)
  let highHit := holds ((below + 1) * unit) (r.high * widen)
  let takeBelow :=
    2 * value < (2 * below + 1) * unit ||
      (2 * value = (2 * below + 1) * unit && tie = .toEven && below % 2 = 0)
  match lowHit, highHit with
  | false, false => none
  | true, false => some ⟨below, t⟩
  | false, true => some ⟨below + 1, t⟩
  | true, true => some ⟨if takeBelow then below else below + 1, t⟩

/-- The shortest decimal of `m * 2 ^ q`, for positive `m`. Seventeen digits always suffice. -/
def shortest (f : BinaryFormat) (tie : Tie) (m : Nat) (q : Int) : Numeral :=
  let r := Rounding.of m q (f.isBinadeStart m q)
  let lead := leadingExponent r.value r.den
  ((List.range 17).findSome? fun (n : Nat) => r.onGrid? tie (lead - Int.ofNat n)).getD ⟨0, 0⟩

end EventTrace.Decimal
