import EventTrace.Decimal.Shortest

/-!
# Styles of decimal text

How the shortest decimal of a floating-point number is laid out. A `Style` holds the decisions of
one format: which numbers are written positionally, what marks a whole number, how an exponent is
signed, which way ties go, and the words for what is no number.
-/

namespace EventTrace.Decimal

structure Style where
  /-- The exponents of the leading digit for which the number is written positionally. -/
  isPositional : Int → Bool
  /-- Written after a whole number in positional form. -/
  wholeMark : String
  /-- Written before an exponent that is not negative. -/
  exponentPlus : String
  tie : Tie
  nan : String
  infinity : String
  negativeInfinity : String

def dropTrailingZeros (digits : List Char) : List Char :=
  (digits.reverse.dropWhile (· = '0')).reverse

/-- Digits whose first one has the given exponent, with a point where the units end. -/
def Style.positional (style : Style) (digits : List Char) (lead : Int) : String :=
  if lead < 0 then
    "0." ++ String.ofList (List.replicate (-lead - 1).toNat '0' ++ digits)
  else
    let whole := lead.toNat + 1
    if digits.length ≤ whole then
      String.ofList (digits ++ List.replicate (whole - digits.length) '0') ++ style.wholeMark
    else String.ofList (digits.take whole) ++ "." ++ String.ofList (digits.drop whole)

/-- Digits with a point after the first one and the exponent of that one. -/
def Style.exponential (style : Style) (digits : List Char) (lead : Int) : String :=
  let fraction := if digits.length ≤ 1 then "" else "." ++ String.ofList (digits.drop 1)
  let exponent := if lead < 0 then "-" ++ toString lead.natAbs
    else style.exponentPlus ++ toString lead.natAbs
  String.ofList (digits.take 1) ++ fraction ++ "e" ++ exponent

def Style.render (style : Style) (f : BinaryFormat) (bits : Nat) : String :=
  let negative := f.isNegative bits
  let sign := if negative then "-" else ""
  match f.magnitude bits with
  | .nan => style.nan
  | .infinite => if negative then style.negativeInfinity else style.infinity
  | .finite 0 _ => sign ++ style.positional ['0'] 0
  | .finite m q =>
    let d := shortest f style.tie m q
    let all := Nat.toDigits 10 d.digits
    let lead := d.exponent + all.length - 1
    let digits := dropTrailingZeros all
    sign ++ if style.isPositional lead then style.positional digits lead
      else style.exponential digits lead

end EventTrace.Decimal
