import EventTrace.Decimal.Literal
import EventTrace.Time.Instant

/-!
# Reading instants

A date, a time of day and an offset from UTC, as RFC 3339 has them and with the liberties of
ISO 8601: hyphens and colons may be left out, minutes and seconds may be left out, a year may have a
sign and six digits, and the offset may have seconds. Annotations in brackets after the offset are
read and ignored, unless they are marked as critical and name no time zone.
-/

namespace EventTrace.Time

open EventTrace.Decimal (isDigit digitsValue)

abbrev TextReader (α : Type) := List Char → Option (α × List Char)

/-- Reads exactly `count` digits as a number between the bounds. -/
def readNumber (count least greatest : Nat) : TextReader Nat := fun cs =>
  let digits := cs.take count
  let n := digitsValue digits
  if digits.length = count ∧ digits.all isDigit ∧ least ≤ n ∧ n ≤ greatest then
    some (n, cs.drop count)
  else none

def readMark (mark : Char) : List Char → Option (List Char)
  | [] => none
  | c :: rest => if c = mark then some rest else none

/-! ## Dates -/

/-- Reads four digits, or a sign and six digits; a negative year zero is refused. -/
def readYear : TextReader Int
  | '+' :: rest => (readNumber 6 0 9999 rest).map fun (n, more) => (Int.ofNat n, more)
  | '-' :: rest => (readNumber 6 1 9999 rest).map fun (n, more) => (-Int.ofNat n, more)
  | cs => (readNumber 4 0 9999 cs).map fun (n, more) => (Int.ofNat n, more)

/-- Reads a date; hyphens stand after the year and after the month, or at neither place. -/
def readDate : TextReader Date := fun cs => do
  let (year, rest) ← readYear cs
  let extended := rest.head? = some '-'
  let separator (text : List Char) : Option (List Char) :=
    if extended then readMark '-' text else some text
  let (month, rest) ← readNumber 2 1 12 (← separator rest)
  let (day, rest) ← readNumber 2 1 31 (← separator rest)
  let date : Date := ⟨year, month, day⟩
  if date.isValid then some (date, rest) else none

/-! ## Times of day and offsets -/

/-- What follows a two-digit number if the next part of a time is there: in the extended form the
part after a colon, otherwise the text itself when it goes on with two digits. -/
def nextPart (extended : Bool) (cs : List Char) : Option (List Char) :=
  if extended then readMark ':' cs
  else if (cs.take 2).length = 2 ∧ (cs.take 2).all isDigit then some cs else none

/-- Reads a fraction of a second of up to nine digits after a point or a comma, in nanoseconds. -/
def readFraction : TextReader (Option Nat) := fun cs =>
  match cs with
  | [] => some (none, [])
  | c :: rest =>
    if c = '.' ∨ c = ',' then
      let digits := (rest.take 9).takeWhile isDigit
      if digits.isEmpty then none
      else some (some (digitsValue digits * Nat.pow 10 (9 - digits.length)), rest.drop digits.length)
    else some (none, cs)

structure Clock where
  seconds : Nat
  nanos : Nat
deriving DecidableEq, Repr

/-- Reads hours with optional minutes, seconds and fraction. A sixtieth second counts as the one
before where `greatestSecond` admits it. -/
def readClock (greatestHour greatestSecond : Nat) : TextReader Clock := fun cs => do
  let (hour, rest) ← readNumber 2 0 greatestHour cs
  let extended := rest.head? = some ':'
  match nextPart extended rest with
  | none => some (⟨hour * 3600, 0⟩, rest)
  | some minuteText =>
    let (minute, rest) ← readNumber 2 0 59 minuteText
    match nextPart extended rest with
    | none => some (⟨hour * 3600 + minute * 60, 0⟩, rest)
    | some secondText =>
      let (second, rest) ← readNumber 2 0 greatestSecond secondText
      let (nanos, rest) ← readFraction rest
      some (⟨hour * 3600 + minute * 60 + min second 59, nanos.getD 0⟩, rest)

def greatestOffset : Nat := 25 * 3600 + 59 * 60 + 59

/-- Reads an offset from UTC in seconds; half a second and more count as one. -/
def readOffset : TextReader Int
  | [] => none
  | sign :: rest =>
    if sign = 'Z' ∨ sign = 'z' then some (0, rest)
    else if sign = '+' ∨ sign = '-' then do
      let (size, rest) ← readClock 25 59 rest
      let seconds := if 500000000 ≤ size.nanos then size.seconds + 1 else size.seconds
      if greatestOffset < seconds then none
      else some (if sign = '-' then -Int.ofNat seconds else Int.ofNat seconds, rest)
    else none

/-! ## Annotations -/

def isLower (c : Char) : Bool := 97 ≤ c.toNat && c.toNat ≤ 122

def isAlphanumeric (c : Char) : Bool := isDigit c || isLower c || (65 ≤ c.toNat && c.toNat ≤ 90)

def startsZone (c : Char) : Bool := c = '_' || c = '.' || (isAlphanumeric c && !isDigit c)

def continuesZone (c : Char) : Bool := startsZone c || isDigit c || c = '+' || c = '-'

def startsKey (c : Char) : Bool := c = '_' || isLower c

def continuesKey (c : Char) : Bool := startsKey c || isDigit c || c = '-'

def skipWord (starts continues : Char → Bool) : List Char → Option (List Char)
  | [] => none
  | c :: rest => if starts c then some (rest.dropWhile continues) else none

def skipJoined (mark : Char) (starts continues : Char → Bool) :
    Nat → List Char → Option (List Char)
  | 0, _ => none
  | fuel + 1, cs =>
    match skipWord starts continues cs with
    | none => none
    | some rest =>
      match readMark mark rest with
      | none => some rest
      | some more => skipJoined mark starts continues fuel more

def skipZoneOffset (cs : List Char) : Option (List Char) := do
  let (_, rest) ← readNumber 2 0 25 cs
  match nextPart (rest.head? = some ':') rest with
  | none => some rest
  | some minutes => (readNumber 2 0 59 minutes).map (·.2)

/-- Drops a time zone annotation after its bracket and mark; `none` where there is a key instead. -/
def skipZone (cs : List Char) : Option (Option (List Char)) :=
  match cs with
  | '+' :: rest | '-' :: rest => some ((skipZoneOffset rest).bind (readMark ']'))
  | _ =>
    match skipWord startsZone continuesZone cs with
    | none => some none
    | some rest =>
      if rest.head? = some '=' then none
      else some ((skipJoined '/' startsZone continuesZone cs.length cs).bind (readMark ']'))

/-- Drops an annotation with a key after its bracket; a critical one is refused. -/
def skipKeyed (cs : List Char) : Option (List Char) := do
  let rest ← skipWord startsKey continuesKey cs
  let rest ← readMark '=' rest
  let rest ← skipJoined '-' isAlphanumeric isAlphanumeric rest.length rest
  readMark ']' rest

def skipKeyedAll : Nat → List Char → Option (List Char)
  | 0, cs => some cs
  | fuel + 1, cs =>
    match cs with
    | '[' :: rest => (skipKeyed rest).bind (skipKeyedAll fuel)
    | _ => some cs

/-- Drops the annotations at the end of an instant: at most one time zone, then keys. -/
def skipAnnotations (cs : List Char) : Option (List Char) :=
  match cs with
  | '[' :: rest =>
    let content := match rest with
      | '!' :: more => more
      | _ => rest
    match skipZone content with
    | some zone => zone.bind (skipKeyedAll cs.length)
    | none => skipKeyedAll cs.length cs
  | _ => some cs

/-! ## Instants -/

def readInstant (cs : List Char) : Option Instant := do
  let (date, rest) ← readDate cs
  let rest ← readMark 'T' rest <|> readMark 't' rest <|> readMark ' ' rest
  let (clock, rest) ← readClock 23 60 rest
  let (offset, rest) ← readOffset rest
  let rest ← skipAnnotations rest
  if rest.isEmpty then
    Instant.ofParts? (date.toDays * 86400 + clock.seconds - offset) clock.nanos
  else none

end EventTrace.Time
