import EventTrace.Text.Blank
import EventTrace.Text.Hex

/-!
# GUIDs

Sixteen octets in the order in which the registry format spells them. On the wire the first three
groups, of four, two and two octets, are little endian; putting octets into that order is its own
inverse (`wireOrder_wireOrder`), so reading and writing the wire form are one permutation.
-/

namespace EventTrace

/-- Sixteen octets, in the order of the text. -/
structure Guid where
  octets : Bytes
  size : octets.length = 16
deriving DecidableEq

namespace Guid

/-- The first three groups turned around: from the order of the text to that of the wire, and back. -/
def wireOrder (octets : Bytes) : Bytes :=
  (octets.take 4).reverse ++ ((octets.drop 4).take 2).reverse ++
    ((octets.drop 6).take 2).reverse ++ octets.drop 8

theorem length_wireOrder (octets : Bytes) (h : octets.length = 16) :
    (wireOrder octets).length = 16 := by
  simp [wireOrder, h]

theorem wireOrder_wireOrder (octets : Bytes) (h : octets.length = 16) :
    wireOrder (wireOrder octets) = octets := by
  match octets, h with
  | [_, _, _, _, _, _, _, _, _, _, _, _, _, _, _, _], _ => rfl

def toBytes (g : Guid) : Bytes := wireOrder g.octets

def ofBytes (data : Bytes) (h : data.length = 16) : Guid :=
  ⟨wireOrder data, length_wireOrder data h⟩

/-- The GUID of some octets on the wire, if they are sixteen. -/
def ofBytes? (data : Bytes) : Option Guid :=
  if h : data.length = 16 then some (ofBytes data h) else none

@[simp] theorem length_toBytes (g : Guid) : g.toBytes.length = 16 :=
  length_wireOrder g.octets g.size

@[simp] theorem toBytes_ofBytes (data : Bytes) (h : data.length = 16) :
    (ofBytes data h).toBytes = data :=
  wireOrder_wireOrder data h

@[simp] theorem ofBytes_toBytes (g : Guid) : ofBytes g.toBytes g.length_toBytes = g := by
  cases g with
  | mk octets size => simp [ofBytes, toBytes, wireOrder_wireOrder octets size]

def nil : Guid := ⟨List.replicate 16 0, rfl⟩

instance : Inhabited Guid := ⟨nil⟩

/-- GUIDs are ordered by their groups as numbers, which is the order of the octets as spelled. -/
def order (a b : Guid) : Ordering := compare a.octets b.octets

/-! ## The registry format -/

/-- Upper-case digits in five groups joined by hyphens. -/
def textChars (g : Guid) : List Char :=
  let digits (first count : Nat) : List Char :=
    ((g.octets.drop first).take count).flatMap (Hex.pair Hex.upperDigit)
  digits 0 4 ++ '-' :: digits 4 2 ++ '-' :: digits 6 2 ++ '-' :: digits 8 2 ++ '-' :: digits 10 6

def text (g : Guid) : String := String.ofList g.textChars

instance : ToString Guid := ⟨text⟩

structure Invalid where
  input : String
deriving DecidableEq, Repr

def Invalid.message (e : Invalid) : String :=
  "`" ++ e.input ++ "` is not a GUID in registry format (XXXXXXXX-XXXX-XXXX-XXXX-XXXXXXXXXXXX)"

def readOctets : List Char → Option Bytes
  | [] => some []
  | [_] => none
  | high :: low :: rest =>
    match Hex.charValue? high, Hex.charValue? low with
    | some h, some l => (readOctets rest).map (UInt8.ofNat (16 * h + l) :: ·)
    | _, _ => none

/-- Reads groups of octets, given by their sizes, with a hyphen between any two. -/
def readGroups : List Nat → List Char → Option Bytes
  | [], [] => some []
  | [], _ :: _ => none
  | [n], cs => if cs.length = 2 * n then readOctets cs else none
  | n :: sizes, cs =>
    match readOctets (cs.take (2 * n)), cs.drop (2 * n) with
    | some octets, '-' :: rest => (readGroups sizes rest).map (octets ++ ·)
    | _, _ => none

/-- The text between braces, or the text itself where neither end has a brace. -/
def unwrap (cs : List Char) : Option (List Char) :=
  match cs.head? == some '\x7b', cs.getLast? == some '\x7d' with
  | true, true => some (cs.drop 1).dropLast
  | false, false => some cs
  | _, _ => none

/-- Reads the registry format, bare or in braces, between blanks. -/
def parse (s : String) : Except Invalid Guid :=
  match (unwrap (Text.trimChars s.toList)).bind (readGroups [4, 2, 2, 2, 6]) with
  | some octets => if h : octets.length = 16 then .ok ⟨octets, h⟩ else .error ⟨s⟩
  | none => .error ⟨s⟩

end Guid

end EventTrace
