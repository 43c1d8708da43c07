import EventTrace.Layout.Call
import EventTrace.Layout.Manifest
import Mathlib.Data.List.Nodup

/-!
# Registries in hash maps

How a registry is kept: layouts in a hash map under their keys, which is changed in place. What a key
had before an insertion is lost, so a registration looks for its key first; a call that fails keeps
whatever it changed until then.

That no layout is lost, and that a hash map answers every call as `Registry` does, is the subject of
`EventTrace.Proofs.Layout.Store`.
-/

namespace EventTrace

instance : Hashable LayoutKey := ⟨fun key => mixHash (hash key.eventId) (hash key.version)⟩

/-- Layouts in a hash map. -/
structure LayoutStore where
  layouts : Std.HashMap LayoutKey Layout := ∅

namespace LayoutStore

def empty : LayoutStore := {}

/-- Changes to a store up to the first that fails, which keeps those before it. -/
abbrev Changes := EStateM LayoutError LayoutStore

def register (l : Layout) : Changes Layout := do
  if (← get).layouts.contains l.key then throw (.alreadyRegistered l.key)
  modifyGet fun s => (l, { s with layouts := s.layouts.insert l.key l })

def resolve (s : LayoutStore) (key : LayoutKey) : Except LayoutError Layout :=
  match s.layouts[key]? with
  | some l => .ok l
  | none => .error (.notFound key)

/-- Registers definitions in order, up to the first that fails. -/
def load : List LayoutDef → Changes Unit
  | [] => return
  | d :: rest => do
    let layout ← MonadExcept.ofExcept d.toLayout
    let _ ← register layout
    load rest

def call (s : LayoutStore) : RegistryCall → LayoutStore × RegistryReply
  | .register l =>
    match (register l).run s with
    | .ok found next => (next, .layout (.ok found))
    | .error e next => (next, .layout (.error e))
  | .get key | .resolve key => (s, .layout (s.resolve key))
  | .keys => (s, .keys s.layouts.keys)
  | .size => (s, .size s.layouts.size)
  | .isEmpty => (s, .isEmpty s.layouts.isEmpty)

def after (s : LayoutStore) (calls : List RegistryCall) : LayoutStore :=
  calls.foldl (fun s c => (s.call c).1) s

end LayoutStore

end EventTrace
