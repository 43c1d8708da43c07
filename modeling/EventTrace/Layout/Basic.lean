import EventTrace.Layout.Error

/-!
# Layouts

The ordered fields of the user data of one event. `Layout.check` goes through the fields in order
and reports the first that breaks a rule; a `Layout` carries the proof that its fields pass.
-/

namespace EventTrace

namespace Layout

def findField (fields : List FieldSpec) (name : String) : Option FieldSpec :=
  fields.find? (·.name = name)

/-- The rule of a field with a width of its own: that width and nothing else. -/
def checkScalar (f : FieldSpec) (natural : Nat) : Except LayoutError Unit :=
  match f.rule with
  | .fixed width => if width = natural then .ok () else .error (.invalidWidth f.name f.type width)
  | _ => .error (.unsupportedRule f.name f.type f.rule)

/-- The rule of a string or a run of bytes: whole elements, a terminator for strings only, and a
length only from an integer among the earlier fields. -/
def checkVariable (earlier : List FieldSpec) (f : FieldSpec) : Except LayoutError Unit :=
  match f.rule with
  | .fixed width =>
    if width % f.type.elementWidth = 0 then .ok ()
    else .error (.invalidWidth f.name f.type width)
  | .nullTerminated =>
    if f.type.isString then .ok () else .error (.unsupportedRule f.name f.type f.rule)
  | .lengthField reference =>
    match findField earlier reference with
    | none => .error (.unknownLengthField f.name reference)
    | some g =>
      if g.type.isIntegral then .ok ()
      else .error (.lengthFieldNotIntegral f.name reference g.type)
  | .remainder | .counted => .ok ()

def checkRule (earlier : List FieldSpec) (f : FieldSpec) : Except LayoutError Unit :=
  match f.type.naturalWidth? with
  | some natural => checkScalar f natural
  | none => checkVariable earlier f

/-- A field between earlier and later ones: its rule, then its place, then its name. -/
def checkField (earlier : List FieldSpec) (f : FieldSpec) (later : List FieldSpec) :
    Except LayoutError Unit :=
  match checkRule earlier f with
  | .error e => .error e
  | .ok () =>
    if f.rule = .remainder ∧ later ≠ [] then .error (.remainderNotLast f.name)
    else if (findField earlier f.name).isSome then .error (.duplicateField f.name)
    else .ok ()

def checkFrom (earlier : List FieldSpec) : List FieldSpec → Except LayoutError Unit
  | [] => .ok ()
  | f :: later =>
    match checkField earlier f later with
    | .error e => .error e
    | .ok () => checkFrom (earlier ++ [f]) later

/-- Whether a list of fields is a layout, or the first reason why not. -/
def check (fields : List FieldSpec) : Except LayoutError Unit := checkFrom [] fields

end Layout

structure Layout where
  key : LayoutKey
  eventName : Option String
  fields : List FieldSpec
  checked : Layout.check fields = .ok ()
deriving DecidableEq

namespace Layout

def ofFields (key : LayoutKey) (fields : List FieldSpec) : Except LayoutError Layout :=
  match h : check fields with
  | .error e => .error e
  | .ok () => .ok ⟨key, none, fields, h⟩

def empty (key : LayoutKey) : Layout := ⟨key, none, [], rfl⟩

def withName (l : Layout) (name : Option String) : Layout := { l with eventName := name }

def length (l : Layout) : Nat := l.fields.length

def field? (l : Layout) (name : String) : Option FieldSpec := findField l.fields name

def position? (l : Layout) (name : String) : Option Nat :=
  l.fields.findIdx? (·.name = name)

@[simp] theorem fields_empty (key : LayoutKey) : (empty key).fields = [] := rfl

@[simp] theorem fields_withName (l : Layout) (name : Option String) :
    (l.withName name).fields = l.fields := rfl

/-- A layout that is made has the fields it was made of. -/
theorem fields_of_ofFields {key : LayoutKey} {fields : List FieldSpec} {l : Layout}
    (h : ofFields key fields = .ok l) : l.fields = fields := by
  unfold ofFields at h
  split at h
  · cases h
  · cases h; rfl

end Layout

end EventTrace
