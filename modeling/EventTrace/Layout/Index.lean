import EventTrace.Layout.Basic
import Mathlib.Data.List.Nodup

/-!
# Layouts with an index

How a layout is kept: beside its fields there is a hash map with their places under their names. It is
filled while the fields are checked, and a name is looked up in it, then and later, by its place. A place
where there is no field would stop the machine (`none`).

That this accepts and refuses what `Layout.ofFields` does, and finds what it finds, is the subject of
`EventTrace.Proofs.Layout.Index`.
-/

namespace EventTrace

/-- A layout and the places of its fields under their names. -/
structure IndexedLayout where
  key : LayoutKey
  eventName : Option String
  fields : List FieldSpec
  index : Std.HashMap String Nat

namespace IndexedLayout

def lookUp (fields : List FieldSpec) (index : Std.HashMap String Nat) (name : String) :
    Option (Option FieldSpec) :=
  match index[name]? with
  | none => some none
  | some position => do return some (← fields[position]?)

/-- The rule of a field after some earlier ones. Only a length in another field takes a look-up. -/
def checkRule (earlier : List FieldSpec) (index : Std.HashMap String Nat) (f : FieldSpec) :
    Option (Except LayoutError Unit) :=
  match f.type.naturalWidth?, f.rule with
  | none, .lengthField reference => do
    match ← lookUp earlier index reference with
    | none => return .error (.unknownLengthField f.name reference)
    | some g =>
      if g.type.isIntegral then return .ok ()
      else return .error (.lengthFieldNotIntegral f.name reference g.type)
  | _, _ => some (Layout.checkRule earlier f)

/-- Checks the fields after some earlier ones in order, and puts each into the index. A name whose place
was there already is taken. -/
def indexFrom (earlier : List FieldSpec) (index : Std.HashMap String Nat) :
    List FieldSpec → Option (Except LayoutError (Std.HashMap String Nat))
  | [] => some (.ok index)
  | f :: later => do
    match ← checkRule earlier index f with
    | .error e => return .error e
    | .ok () =>
      if f.rule = .remainder ∧ later ≠ [] then return .error (.remainderNotLast f.name)
      else
        let (taken, next) := index.containsThenInsert f.name earlier.length
        if taken then return .error (.duplicateField f.name)
        else indexFrom (earlier ++ [f]) next later

def ofFields (key : LayoutKey) (fields : List FieldSpec) :
    Option (Except LayoutError IndexedLayout) := do
  match ← indexFrom [] ∅ fields with
  | .error e => return .error e
  | .ok index => return .ok ⟨key, none, fields, index⟩

def position? (l : IndexedLayout) (name : String) : Option Nat := l.index[name]?

def field? (l : IndexedLayout) (name : String) : Option (Option FieldSpec) :=
  lookUp l.fields l.index name

end IndexedLayout

end EventTrace
