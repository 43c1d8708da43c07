import EventTrace.Text.Hex

/-!
# JSON documents, written

JSON values with their members in order, and their text without any space. Numbers are kept as the
digits they are written with.
-/

namespace EventTrace.Json

inductive Doc where
  | null
  | bool (b : Bool)
  | number (digits : String)
  | string (s : String)
  | array (items : List Doc)
  | object (members : List (String × Doc))

def Doc.int (n : Int) : Doc := .number (toString n)

def Doc.nat (n : Nat) : Doc := .number (toString n)

/-- How a character stands inside a string. -/
def escapeChar (c : Char) : String :=
  let n := c.toNat
  if n = 34 then "\\\""
  else if n = 92 then "\\\\"
  else if n = 8 then "\\b"
  else if n = 9 then "\\t"
  else if n = 10 then "\\n"
  else if n = 12 then "\\f"
  else if n = 13 then "\\r"
  else if n < 32 then "\\u" ++ String.ofList (Hex.padLeft 4 (Nat.toDigits 16 n))
  else String.singleton c

def stringText (s : String) : String :=
  "\"" ++ String.join (s.toList.map escapeChar) ++ "\""

namespace Doc

mutual

def render : Doc → String
  | .null => "null"
  | .bool b => if b then "true" else "false"
  | .number digits => digits
  | .string s => stringText s
  | .array items => "[" ++ ",".intercalate (renderItems items) ++ "]"
  | .object members => "\x7b" ++ ",".intercalate (renderMembers members) ++ "\x7d"

def renderItems : List Doc → List String
  | [] => []
  | d :: rest => d.render :: renderItems rest

def renderMembers : List (String × Doc) → List String
  | [] => []
  | (name, d) :: rest => (stringText name ++ ":" ++ d.render) :: renderMembers rest

end

end Doc

end EventTrace.Json
