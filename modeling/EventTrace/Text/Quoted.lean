import EventTrace.Text.Hex
import EventTrace.Text.Shapeless

/-!
# Quoted text and the text of a structure

How a value is shown to a person who inspects it: texts in quotes with everything unprintable
escaped, constructors with their arguments, records with their members, lists in brackets.
-/

namespace EventTrace.Text

/-- A character by its code point, as in `\\u\x7b1f\x7d`. -/
def codePointEscape (c : Char) : String := "\\u\x7b" ++ Hex.ofNat c.toNat ++ "\x7d"

/-- The escape shared by quoted texts and quoted characters, if the character needs one. -/
def escape? (c : Char) : Option String :=
  if c = Char.ofNat 0 then some "\\0"
  else if c = '\t' then some "\\t"
  else if c = '\r' then some "\\r"
  else if c = '\n' then some "\\n"
  else if c = '\\' then some "\\\\"
  else if isShapeless c then some (codePointEscape c)
  else none

def quoted (s : String) : String :=
  let shown (c : Char) : String :=
    if c.toNat = 34 then "\\\"" else (escape? c).getD (String.singleton c)
  "\"" ++ String.join (s.toList.map shown) ++ "\""

def quotedChar (c : Char) : String :=
  let shown := if c.toNat = 39 then "\\'" else (escape? c).getD (String.singleton c)
  "'" ++ shown ++ "'"

def applied (name argument : String) : String := name ++ "(" ++ argument ++ ")"

def bracketed (items : List String) : String := "[" ++ ", ".intercalate items ++ "]"

def membered (name : String) (members : List (String × String)) : String :=
  let shown := members.map fun m => m.1 ++ ": " ++ m.2
  name ++ " \x7b " ++ ", ".intercalate shown ++ " \x7d"

def optional (shown : Option String) : String :=
  match shown with
  | none => "None"
  | some s => applied "Some" s

end EventTrace.Text
