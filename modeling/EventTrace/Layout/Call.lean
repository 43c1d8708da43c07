import EventTrace.Layout.Registry

/-!
# Calls on a registry

A registry is used by a sequence of calls. Only a registration changes it, and a registration that is
refused does not.
-/

namespace EventTrace

inductive RegistryCall where
  | register (l : Layout)
  /-- The layout of a key, to be shared. -/
  | get (key : LayoutKey)
  /-- The layout of a key, to be read with. -/
  | resolve (key : LayoutKey)
  | keys
  | size
  | isEmpty

inductive RegistryReply where
  | layout (found : Except LayoutError Layout)
  | keys (keys : List LayoutKey)
  | size (count : Nat)
  | isEmpty (empty : Bool)

/-- The layouts that some calls ask to register, whether or not they are refused. -/
def RegistryCall.attempts (calls : List RegistryCall) : List Layout :=
  calls.filterMap fun
    | .register l => some l
    | _ => none

namespace Registry

def call (r : Registry) : RegistryCall → Registry × RegistryReply
  | .register l =>
    match r.register l with
    | .ok next => (next, .layout (.ok l))
    | .error e => (r, .layout (.error e))
  | .get key | .resolve key => (r, .layout (r.resolve key))
  | .keys => (r, .keys r.keys)
  | .size => (r, .size r.size)
  | .isEmpty => (r, .isEmpty r.entries.isEmpty)

def after (r : Registry) (calls : List RegistryCall) : Registry :=
  calls.foldl (fun r c => (r.call c).1) r

end Registry

end EventTrace
