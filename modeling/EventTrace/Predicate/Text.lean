/-!
# Text tests

How the text of a field is compared with a given one: as it stands, or with the letters of ASCII in
lower case on both sides.
-/

namespace EventTrace

inductive TextTest where
  | equals
  | contains
  | startsWith
  | endsWith
deriving DecidableEq, Repr

inductive CaseMode where
  | ordinal
  /-- Letters of ASCII in either case are the same. -/
  | ignoreCase
deriving DecidableEq, Repr

/-- Whether some characters stand somewhere among others, without a gap. -/
def isInfix (needle : List Char) : List Char → Bool
  | [] => needle.isEmpty
  | c :: rest => needle.isPrefixOf (c :: rest) || isInfix needle rest

/-- The character that a mode takes for another one. -/
def CaseMode.fold : CaseMode → Char → Char
  | .ordinal, c => c
  | .ignoreCase, c => if 'A' ≤ c ∧ c ≤ 'Z' then Char.ofNat (c.toNat + 32) else c

namespace TextTest

/-- The test on characters as they stand. -/
def holdsOn (t : TextTest) (text needle : List Char) : Bool :=
  match t with
  | .equals => text = needle
  | .contains => isInfix needle text
  | .startsWith => needle.isPrefixOf text
  | .endsWith => needle.isSuffixOf text

def holds (t : TextTest) (mode : CaseMode) (text needle : String) : Bool :=
  t.holdsOn (text.toList.map mode.fold) (needle.toList.map mode.fold)

def inspect : TextTest → String
  | .equals => "Equals"
  | .contains => "Contains"
  | .startsWith => "StartsWith"
  | .endsWith => "EndsWith"

end TextTest

def CaseMode.inspect : CaseMode → String
  | .ordinal => "Ordinal"
  | .ignoreCase => "IgnoreCase"

end EventTrace
