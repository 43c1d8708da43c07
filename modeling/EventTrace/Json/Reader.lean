import EventTrace.Json.Number
import EventTrace.Text.Hex

/-!
# Readers of JSON

Readers take a value of a known shape off the front of a text. The text is read once from left to
right, and the first fault met is the answer: the end of the text, a text that is no JSON, or a value
of another shape. Values that nothing asks for are passed over and only checked for their form.

Every loop is bounded by the length of the text, off which its rounds take characters.
-/

namespace EventTrace.Json

/-- Takes a value off the front of a text. -/
abbrev Reader (α : Type) := StateT (List Char) (Except Fault) α

namespace Reader

def fail {α : Type} (f : Fault) : Reader α := fun _ => .error f

def isSpace (c : Char) : Bool := c = ' ' || c = '\n' || c = '\t' || c = '\r'

def peek : Reader (Option Char) := fun cs =>
  let rest := cs.dropWhile isSpace
  .ok (rest.head?, rest)

def advance : Reader Unit := fun cs => .ok ((), cs.drop 1)

/-- A bound for loops over the text. -/
def fuel : Reader Nat := fun cs => .ok (cs.length + 1, cs)

/-! ## Words, numbers and strings -/

/-- The rest of a word, whose first character was seen already. -/
def word : List Char → Reader Unit
  | [] => pure ()
  | expected :: more => fun cs =>
    match cs with
    | [] => .error .ended
    | c :: rest => if c = expected then word more rest else .error .malformed

def number : Reader Number := fun cs => do
  let (text, rest) ← scanNumber .ended cs
  .ok (← text.value, rest)

def skipNumber : Reader Unit := fun cs => do
  let (_, rest) ← scanNumber .malformed cs
  .ok ((), rest)

def quote : Char := Char.ofNat 34

def backslash : Char := Char.ofNat 92

/-- Four hexadecimal digits. Fewer than four bytes of text are its end. -/
def fourHex (cs : List Char) : Except Fault (Nat × List Char) :=
  let window := cs.take 4
  match window.mapM Hex.charValue? with
  | some ds =>
    if ds.length = 4 then .ok (ds.foldl (fun n d => 16 * n + d) 0, cs.drop 4) else .error .ended
  | none => if (Hex.utf8 (String.ofList window)).length < 4 then .error .ended else .error .malformed

def isHighSurrogate (n : Nat) : Bool := 0xD800 ≤ n && n < 0xDC00

def isLowSurrogate (n : Nat) : Bool := 0xDC00 ≤ n && n < 0xE000

/-- The second half of a surrogate pair, which an escape has to give. -/
def lowHalf (high : Nat) (cs : List Char) : Except Fault (Char × List Char) :=
  match cs with
  | [] => .error .ended
  | c :: rest =>
    if c ≠ backslash then .error .malformed
    else match rest with
      | [] => .error .ended
      | 'u' :: rest => do
        let (low, rest) ← fourHex rest
        if isLowSurrogate low then
          .ok (Char.ofNat (0x10000 + 1024 * (high - 0xD800) + (low - 0xDC00)), rest)
        else .error .malformed
      | _ => .error .malformed

/-- An escape by code point. Surrogates must pair up where the text is wanted. -/
def codePointEscape (wanted : Bool) (cs : List Char) : Except Fault (Char × List Char) := do
  let (n, rest) ← fourHex cs
  if wanted && isLowSurrogate n then .error .malformed
  else if wanted && isHighSurrogate n then lowHalf n rest
  else .ok (Char.ofNat n, rest)

def escape (wanted : Bool) (cs : List Char) : Except Fault (Char × List Char) :=
  match cs with
  | [] => .error .ended
  | 'u' :: rest => codePointEscape wanted rest
  | 'b' :: rest => .ok (Char.ofNat 8, rest)
  | 'f' :: rest => .ok (Char.ofNat 12, rest)
  | 'n' :: rest => .ok ('\n', rest)
  | 'r' :: rest => .ok ('\r', rest)
  | 't' :: rest => .ok ('\t', rest)
  | c :: rest =>
    if c = quote ∨ c = backslash ∨ c = '/' then .ok (c, rest) else .error .malformed

/-- The characters up to the closing quote, onto those read already in reverse. -/
def stringChars (wanted : Bool) : Nat → List Char → List Char → Except Fault (List Char × List Char)
  | 0, _, _ => .error .ended
  | _ + 1, _, [] => .error .ended
  | fuel + 1, done, c :: rest =>
    if c = quote then .ok (done.reverse, rest)
    else if c = backslash then
      match escape wanted rest with
      | .error f => .error f
      | .ok (d, rest) => stringChars wanted fuel (d :: done) rest
    else if c.toNat < 32 then .error .malformed
    else stringChars wanted fuel (c :: done) rest

def quotedString (wanted : Bool) : Reader String := fun cs =>
  (stringChars wanted (cs.length + 1) [] (cs.drop 1)).map fun (s, rest) => (String.ofList s, rest)

def key (wanted : Bool) : Reader String := do
  match ← peek with
  | none => fail .ended
  | some c => if c = quote then quotedString wanted else fail .malformed

def colon : Reader Unit := do
  match ← peek with
  | none => fail .ended
  | some ':' => advance
  | some _ => fail .malformed

/-! ## Values passed over -/

mutual

def skip : Nat → Reader Unit
  | 0 => fail .ended
  | fuel + 1 => do
    match ← peek with
    | none => fail .ended
    | some 'n' => word "null".toList
    | some 't' => word "true".toList
    | some 'f' => word "false".toList
    | some '[' =>
      advance
      if (← peek) = some ']' then advance else skipItems fuel
    | some '\x7b' =>
      advance
      if (← peek) = some '\x7d' then advance else skipMembers fuel
    | some c =>
      if c = quote then discard (quotedString false)
      else if c = '-' ∨ Decimal.isDigit c then skipNumber
      else fail .malformed

def skipItems : Nat → Reader Unit
  | 0 => fail .ended
  | fuel + 1 => do
    skip fuel
    match ← peek with
    | none => fail .ended
    | some ',' => advance; skipItems fuel
    | some ']' => advance
    | some _ => fail .malformed

def skipMembers : Nat → Reader Unit
  | 0 => fail .ended
  | fuel + 1 => do
    discard (key false)
    colon
    skip fuel
    match ← peek with
    | none => fail .ended
    | some ',' => advance; skipMembers fuel
    | some '\x7d' => advance
    | some _ => fail .malformed

end

/-- Passes over a value. A bracket takes two rounds, one for its value and one for what is in it. -/
def skipValue : Reader Unit := do skip (2 * (← fuel))

/-! ## Values of a known shape -/

/-- The fault of a value of another shape: a value that is cut off or no JSON is that first. -/
def wrongShape {α : Type} : Reader α := do
  match ← peek with
  | none => fail .ended
  | some 'n' => word "null".toList
  | some 't' => word "true".toList
  | some 'f' => word "false".toList
  | some '[' | some '\x7b' => pure ()
  | some c =>
    if c = quote then discard (quotedString true)
    else if c = '-' ∨ Decimal.isDigit c then discard number
    else fail .malformed
  fail .mistyped

def null : Reader Unit := do
  match ← peek with
  | some 'n' => word "null".toList
  | _ => wrongShape

def orNull {α : Type} (r : Reader α) : Reader (Option α) := do
  match ← peek with
  | some 'n' => word "null".toList; pure none
  | _ => some <$> r

def text : Reader String := do
  if (← peek) = some quote then quotedString true else wrongShape

def natural (bound : Nat) : Reader Nat := do
  match ← peek with
  | some c =>
    if c = '-' ∨ Decimal.isDigit c then
      match ← number with
      | .natural n => if n ≤ bound then pure n else fail .mistyped
      | .other => fail .mistyped
    else wrongShape
  | none => fail .ended

def hasItem (first : Bool) : Reader Bool := do
  match ← peek with
  | none => fail .ended
  | some ']' => pure false
  | some c =>
    if first then pure true
    else if c = ',' then
      advance
      match ← peek with
      | none => fail .ended
      | some ']' => fail .malformed
      | some _ => pure true
    else fail .malformed

/-- The items of an array after its opening bracket, in reverse onto those read already. -/
def items {α : Type} (r : Reader α) : Nat → Bool → List α → Reader (List α)
  | 0, _, _ => fail .ended
  | fuel + 1, first, done => do
    if ← hasItem first then items r fuel false ((← r) :: done)
    else
      advance
      pure done.reverse

def list {α : Type} (r : Reader α) : Reader (List α) := do
  if (← peek) = some '[' then
    advance
    items r (← fuel) true []
  else wrongShape

/-! ## Records -/

structure Member (σ : Type) where
  name : String
  /-- Whether the record may lack the member. -/
  optional : Bool
  isSet : σ → Bool
  read : σ → Reader σ

variable {σ : Type}

/-- One member of a record given by keys. A known key may not repeat, and what
stands under an unknown one is passed over. -/
def keyedMember (members : List (Member σ)) (state : σ) : Reader σ := do
  let name ← key true
  match members.find? (·.name = name) with
  | none =>
    colon
    skipValue
    pure state
  | some m =>
    if m.isSet state then fail .mistyped
    else
      colon
      m.read state

def keyedMembers (members : List (Member σ)) : Nat → Bool → σ → Reader σ
  | 0, _, _ => fail .ended
  | fuel + 1, first, state => do
    match ← peek with
    | none => fail .ended
    | some '\x7d' => pure state
    | some c =>
      if !first then
        if c = ',' then advance else fail .malformed
      keyedMembers members fuel false (← keyedMember members state)

/-- The members of a record given as an array in their order. -/
def orderedMembers : List (Member σ) → Bool → σ → Reader σ
  | [], _, state => pure state
  | m :: rest, first, state => do
    if ← hasItem first then orderedMembers rest false (← m.read state)
    else if m.optional then orderedMembers rest first state
    else fail .mistyped

/-- A record, given by keys or as an array of its members. What a record that lacks members comes to
is settled before its end is read. -/
def record {α : Type} (members : List (Member σ)) (start : σ) (finish : σ → Option α) :
    Reader α := do
  let close (last : Char) (state : σ) : Reader α := do
    match finish state with
    | none => fail .mistyped
    | some a =>
      match ← peek with
      | none => fail .ended
      | some c => if c = last then advance; pure a else fail .malformed
  match ← peek with
  | none => fail .ended
  | some '\x7b' =>
    advance
    close '\x7d' (← keyedMembers members (← fuel) true start)
  | some '[' =>
    advance
    close ']' (← orderedMembers members true start)
  | some _ => wrongShape

/-! ## Tagged values -/

/-- What belongs to a tag: nothing, or a value read after it. -/
inductive Variant (α : Type) where
  | plain (value : α)
  | content (read : Reader α)

/-- A tag alone, or an object of a tag and its content; a tag without content may have null. -/
def tagged {α : Type} (variants : String → Option (Variant α)) : Reader α := do
  match ← peek with
  | none => fail .ended
  | some '\x7b' =>
    advance
    let value ← match variants (← key true) with
      | none => fail .mistyped
      | some (.plain a) => do
        colon
        null
        pure a
      | some (.content r) => do
        colon
        r
    match ← peek with
    | none => fail .ended
    | some '\x7d' => advance; pure value
    | some _ => fail .malformed
  | some c =>
    if c = quote then
      match variants (← quotedString true) with
      | some (.plain a) => pure a
      | _ => fail .mistyped
    else fail .malformed

/-- Reads a whole text; after the value only blanks may follow. -/
def run {α : Type} (r : Reader α) (s : String) : Except Fault α := do
  let (a, rest) ← StateT.run r s.toList
  if (rest.dropWhile isSpace).isEmpty then .ok a else .error .malformed

end Reader

end EventTrace.Json
