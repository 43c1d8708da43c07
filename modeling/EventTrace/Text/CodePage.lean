import EventTrace.Bytes

/-!
# Code pages

Character sets of one byte per character whose lower half is ASCII. A page lists the code points of
the bytes from 128 on; 0 stands at a byte that has no character.
-/

namespace EventTrace

/-- The upper half of a character set whose lower half is ASCII. -/
structure CodePage where
  upper : List Nat

namespace CodePage

def decodeByte (page : CodePage) (b : UInt8) : Option Char :=
  if b.toNat < 128 then some (Char.ofNat b.toNat)
  else match page.upper[b.toNat - 128]? with
    | none | some 0 => none
    | some n => some (Char.ofNat n)

def encodeChar (page : CodePage) (c : Char) : Option UInt8 :=
  if c.toNat < 128 then some (UInt8.ofNat c.toNat)
  else (page.upper.findIdx? (· = c.toNat)).map fun i => UInt8.ofNat (128 + i)

/-- The characters of some bytes, if every byte has one. -/
def decode (page : CodePage) (data : Bytes) : Option (List Char) := data.mapM page.decodeByte

/-- The bytes of some characters, if every character has one. -/
def encode (page : CodePage) (cs : List Char) : Option Bytes := cs.mapM page.encodeChar

def ascii : CodePage := ⟨[]⟩

def latin1 : CodePage := ⟨List.range' 128 128⟩

def windows1252 : CodePage := ⟨[
  0x20AC, 0x81, 0x201A, 0x192, 0x201E, 0x2026, 0x2020, 0x2021,
  0x2C6, 0x2030, 0x160, 0x2039, 0x152, 0x8D, 0x17D, 0x8F,
  0x90, 0x2018, 0x2019, 0x201C, 0x201D, 0x2022, 0x2013, 0x2014,
  0x2DC, 0x2122, 0x161, 0x203A, 0x153, 0x9D, 0x17E, 0x178,
  0xA0, 0xA1, 0xA2, 0xA3, 0xA4, 0xA5, 0xA6, 0xA7,
  0xA8, 0xA9, 0xAA, 0xAB, 0xAC, 0xAD, 0xAE, 0xAF,
  0xB0, 0xB1, 0xB2, 0xB3, 0xB4, 0xB5, 0xB6, 0xB7,
  0xB8, 0xB9, 0xBA, 0xBB, 0xBC, 0xBD, 0xBE, 0xBF,
  0xC0, 0xC1, 0xC2, 0xC3, 0xC4, 0xC5, 0xC6, 0xC7,
  0xC8, 0xC9, 0xCA, 0xCB, 0xCC, 0xCD, 0xCE, 0xCF,
  0xD0, 0xD1, 0xD2, 0xD3, 0xD4, 0xD5, 0xD6, 0xD7,
  0xD8, 0xD9, 0xDA, 0xDB, 0xDC, 0xDD, 0xDE, 0xDF,
  0xE0, 0xE1, 0xE2, 0xE3, 0xE4, 0xE5, 0xE6, 0xE7,
  0xE8, 0xE9, 0xEA, 0xEB, 0xEC, 0xED, 0xEE, 0xEF,
  0xF0, 0xF1, 0xF2, 0xF3, 0xF4, 0xF5, 0xF6, 0xF7,
  0xF8, 0xF9, 0xFA, 0xFB, 0xFC, 0xFD, 0xFE, 0xFF]⟩

def windows1251 : CodePage := ⟨[
  0x402, 0x403, 0x201A, 0x453, 0x201E, 0x2026, 0x2020, 0x2021,
  0x20AC, 0x2030, 0x409, 0x2039, 0x40A, 0x40C, 0x40B, 0x40F,
  0x452, 0x2018, 0x2019, 0x201C, 0x201D, 0x2022, 0x2013, 0x2014,
  0x98, 0x2122, 0x459, 0x203A, 0x45A, 0x45C, 0x45B, 0x45F,
  0xA0, 0x40E, 0x45E, 0x408, 0xA4, 0x490, 0xA6, 0xA7,
  0x401, 0xA9, 0x404, 0xAB, 0xAC, 0xAD, 0xAE, 0x407,
  0xB0, 0xB1, 0x406, 0x456, 0x491, 0xB5, 0xB6, 0xB7,
  0x451, 0x2116, 0x454, 0xBB, 0x458, 0x405, 0x455, 0x457,
  0x410, 0x411, 0x412, 0x413, 0x414, 0x415, 0x416, 0x417,
  0x418, 0x419, 0x41A, 0x41B, 0x41C, 0x41D, 0x41E, 0x41F,
  0x420, 0x421, 0x422, 0x423, 0x424, 0x425, 0x426, 0x427,
  0x428, 0x429, 0x42A, 0x42B, 0x42C, 0x42D, 0x42E, 0x42F,
  0x430, 0x431, 0x432, 0x433, 0x434, 0x435, 0x436, 0x437,
  0x438, 0x439, 0x43A, 0x43B, 0x43C, 0x43D, 0x43E, 0x43F,
  0x440, 0x441, 0x442, 0x443, 0x444, 0x445, 0x446, 0x447,
  0x448, 0x449, 0x44A, 0x44B, 0x44C, 0x44D, 0x44E, 0x44F]⟩

def windows1253 : CodePage := ⟨[
  0x20AC, 0x81, 0x201A, 0x192, 0x201E, 0x2026, 0x2020, 0x2021,
  0x88, 0x2030, 0x8A, 0x2039, 0x8C, 0x8D, 0x8E, 0x8F,
  0x90, 0x2018, 0x2019, 0x201C, 0x201D, 0x2022, 0x2013, 0x2014,
  0x98, 0x2122, 0x9A, 0x203A, 0x9C, 0x9D, 0x9E, 0x9F,
  0xA0, 0x385, 0x386, 0xA3, 0xA4, 0xA5, 0xA6, 0xA7,
  0xA8, 0xA9, 0, 0xAB, 0xAC, 0xAD, 0xAE, 0x2015,
  0xB0, 0xB1, 0xB2, 0xB3, 0x384, 0xB5, 0xB6, 0xB7,
  0x388, 0x389, 0x38A, 0xBB, 0x38C, 0xBD, 0x38E, 0x38F,
  0x390, 0x391, 0x392, 0x393, 0x394, 0x395, 0x396, 0x397,
  0x398, 0x399, 0x39A, 0x39B, 0x39C, 0x39D, 0x39E, 0x39F,
  0x3A0, 0x3A1, 0, 0x3A3, 0x3A4, 0x3A5, 0x3A6, 0x3A7,
  0x3A8, 0x3A9, 0x3AA, 0x3AB, 0x3AC, 0x3AD, 0x3AE, 0x3AF,
  0x3B0, 0x3B1, 0x3B2, 0x3B3, 0x3B4, 0x3B5, 0x3B6, 0x3B7,
  0x3B8, 0x3B9, 0x3BA, 0x3BB, 0x3BC, 0x3BD, 0x3BE, 0x3BF,
  0x3C0, 0x3C1, 0x3C2, 0x3C3, 0x3C4, 0x3C5, 0x3C6, 0x3C7,
  0x3C8, 0x3C9, 0x3CA, 0x3CB, 0x3CC, 0x3CD, 0x3CE, 0]⟩

end CodePage

end EventTrace
