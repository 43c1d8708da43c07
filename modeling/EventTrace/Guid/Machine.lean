import EventTrace.Decimal.Literal
import EventTrace.Guid
import EventTrace.Reading.Machine

/-!
# GUIDs in words

How a machine holds, prints and reads GUIDs: as three numbers and eight bytes. Texts are cut at bytes of
their UTF-8 form, and a cut at a place that the text does not reach or that is inside of a character
stops the machine (`none`). A text that is no GUID is an answer and does not stop it.

That no text stops it, and that its answers are those of `Guid`, is the subject of
`EventTrace.Proofs.Guid.Words`.
-/

namespace EventTrace.Machine

/-! ## Cutting texts -/

def byteLength : List Char → Nat
  | [] => 0
  | c :: cs => c.utf8Size + byteLength cs

def skipBytes : Nat → List Char → Option (List Char)
  | 0, cs => some cs
  | _ + 1, [] => none
  | count + 1, c :: cs =>
    if c.utf8Size ≤ count + 1 then skipBytes (count + 1 - c.utf8Size) cs else none

def takeBytes : Nat → List Char → Option (List Char)
  | 0, _ => some []
  | _ + 1, [] => none
  | count + 1, c :: cs =>
    if c.utf8Size ≤ count + 1 then (takeBytes (count + 1 - c.utf8Size) cs).map (c :: ·) else none

def cut (cs : List Char) (start stop : Nat) : Option (List Char) := do
  let count ← sub stop start
  let behind ← skipBytes start cs
  takeBytes count behind

/-! ## Numbers -/

/-- The number in base sixteen that a text is, perhaps behind a plus, if a word of some bits holds it. -/
def readHex (bits : Nat) (cs : List Char) : Option Nat :=
  let digits := match cs with
    | '+' :: rest => rest
    | _ => cs
  if digits.isEmpty then none
  else (Decimal.readDigits 16 (wordCount bits - 1) .tooLarge 0 digits).toOption

/-- A number in upper-case hexadecimal, filled up with zeros to `width` digits. -/
def upperHex (width n : Nat) : List Char :=
  Hex.padLeft width ((Nat.toDigits 16 n).map Char.toUpper)

/-! ## GUIDs -/

/-- A GUID as a machine holds it. -/
structure GuidWords where
  data1 : UInt32
  data2 : UInt16
  data3 : UInt16
  data4 : Bytes
  size : data4.length = 8
deriving DecidableEq

namespace GuidWords

def ofBytes (data : Bytes) (h : data.length = 16) : GuidWords where
  data1 := UInt32.ofNat (Bytes.toNatLE (data.take 4))
  data2 := UInt16.ofNat (Bytes.toNatLE ((data.drop 4).take 2))
  data3 := UInt16.ofNat (Bytes.toNatLE ((data.drop 6).take 2))
  data4 := data.drop 8
  size := by rw [List.length_drop, h]

def toBytes (g : GuidWords) : Bytes :=
  Bytes.ofNatLE 4 g.data1.toNat ++ Bytes.ofNatLE 2 g.data2.toNat ++ Bytes.ofNatLE 2 g.data3.toNat ++
    g.data4

theorem length_toBytes (g : GuidWords) : g.toBytes.length = 16 := by
  change (Bytes.ofNatLE 4 _ ++ Bytes.ofNatLE 2 _ ++ Bytes.ofNatLE 2 _ ++ g.data4).length = 16
  simp only [List.length_append, Bytes.length_ofNatLE, g.size]

def textChars (g : GuidWords) : List Char :=
  let pairs (data : Bytes) : List Char := data.flatMap fun b => upperHex 2 b.toNat
  upperHex 8 g.data1.toNat ++ '-' :: upperHex 4 g.data2.toNat ++ '-' :: upperHex 4 g.data3.toNat ++
    '-' :: pairs (g.data4.take 2) ++ '-' :: pairs (g.data4.drop 2)

def unwrap (cs : List Char) : Option (Option (List Char)) :=
  match cs.head? == some '\x7b', cs.getLast? == some '\x7d' with
  | true, true => do
    let stop ← sub (byteLength cs) 1
    let inner ← cut cs 1 stop
    return some inner
  | false, false => some (some cs)
  | _, _ => some none

def isGroup (length : Nat) (cs : List Char) : Bool :=
  byteLength cs = length &&
    (cs.flatMap String.utf8EncodeChar).all fun b => (Hex.digitValue? b.toNat).isSome

/-- Some bytes that pairs of digits spell, the first of them at a place of the text. -/
def readPairs (cs : List Char) (start : Nat) : Nat → Option (Option Bytes)
  | 0 => some (some [])
  | count + 1 => do
    let two ← cut cs start (start + 2)
    match readHex 8 two with
    | none => return none
    | some b =>
      let later ← readPairs cs (start + 2) count
      return later.map (UInt8.ofNat b :: ·)

def readGroups : List (List Char) → Option (Option GuidWords)
  | [a, b, c, d, e] =>
    if isGroup 8 a && isGroup 4 b && isGroup 4 c && isGroup 4 d && isGroup 12 e then
      match readHex 32 a, readHex 16 b, readHex 16 c with
      | some data1, some data2, some data3 => do
        let data4 ← readPairs (d ++ e) 0 8
        return data4.bind fun data =>
          if h : data.length = 8 then
            some ⟨UInt32.ofNat data1, UInt16.ofNat data2, UInt16.ofNat data3, data, h⟩
          else none
      | _, _, _ => some none
    else some none
  | _ => some none

def parse (s : String) : Option (Except Guid.Invalid GuidWords) := do
  match ← unwrap (Text.trimChars s.toList) with
  | none => return .error ⟨s⟩
  | some inner =>
    match ← readGroups (inner.splitOn '-') with
    | none => return .error ⟨s⟩
    | some g => return .ok g

end GuidWords

end EventTrace.Machine
