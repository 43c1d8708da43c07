import EventTrace.Layout.Basic
import EventTrace.Log

/-!
# Registries

Layouts by their keys, in the order of registration. The first layout of a key stays: registering
another one under it fails and changes nothing.
-/

namespace EventTrace

structure Registry where
  entries : List Layout := []
deriving DecidableEq

namespace Registry

def empty : Registry := ⟨[]⟩

def find? (r : Registry) (key : LayoutKey) : Option Layout := r.entries.find? (·.key = key)

def resolve (r : Registry) (key : LayoutKey) : Except LayoutError Layout :=
  match r.find? key with
  | some l => .ok l
  | none => .error (.notFound key)

/-- Adds a layout whose key is new. -/
def register (r : Registry) (l : Layout) : Except LayoutError Registry :=
  match r.find? l.key with
  | some _ => .error (.alreadyRegistered l.key)
  | none => .ok ⟨r.entries ++ [l]⟩

def size (r : Registry) : Nat := r.entries.length

def keys (r : Registry) : List LayoutKey := r.entries.map Layout.key

def registrationLine (l : Layout) : Log.Line :=
  ⟨.debug, "registering layout " ++ l.key.text ++ " with " ++ toString l.length ++ " field(s)"⟩

def registrationLines (r : Registry) : List Log.Line := r.entries.map registrationLine

end Registry

/-- Where the layouts of records come from, as a caller has it: what it answers for each key. -/
structure LayoutSource where
  resolve : LayoutKey → Except LayoutError Layout

namespace LayoutSource

/-- One layout, which has its own key only. -/
def single (l : Layout) : LayoutSource :=
  ⟨fun key => if l.key = key then .ok l else .error (.notFound key)⟩

def registry (r : Registry) : LayoutSource := ⟨r.resolve⟩

@[simp] theorem resolve_single (l : Layout) (key : LayoutKey) :
    (single l).resolve key = if l.key = key then .ok l else .error (.notFound key) := rfl

@[simp] theorem resolve_registry (r : Registry) (key : LayoutKey) :
    (registry r).resolve key = r.resolve key := rfl

/-- What a source owes its users: where it has no layout of a key, this and nothing else is its error. -/
def Lawful (source : LayoutSource) : Prop :=
  ∀ key e, source.resolve key = .error e → e = .notFound key

end LayoutSource

end EventTrace
