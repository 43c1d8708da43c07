import EventTrace.Filter
import EventTrace.Reading.Machine

/-!
# Predicates in words

How a machine decides about records. Fields are read in words, so a read may stop it (`none`), and with
it the predicate and the whole batch. An error of a read is an answer and does not stop it.

That no condition stops a batch is the subject of `EventTrace.Proofs.Predicate.Unresolved`.
-/

namespace EventTrace.Machine

variable {μ : Type} [Codecs]

def fieldHolds (p : FieldReader) (field : String) (request : Request) (decide : Extract → Bool) :
    Option Bool := do
  match ← read p request field with
  | .ok x => return decide x
  | .error _ => return false

mutual

def holds (p : FieldReader) : Predicate μ → Option Bool
  | .any => some true
  | .header test => some (test.holds p.record.header)
  | .fieldEq field value => fieldHolds p field .any (Predicate.extractAgrees value)
  | .text field test needle mode => fieldHolds p field .text (Predicate.extractPasses test needle mode)
  | .and left right => do if ← holds p left then holds p right else return false
  | .or left right => do if ← holds p left then return true else holds p right
  | .not inner => do return !(← holds p inner)
  | .allOf inner => holdsAll p inner
  | .anyOf inner => holdsAny p inner
  | .custom leaf => some (leaf p).result

/-- Whether predicates hold, up to the first that does not. -/
def holdsAll (p : FieldReader) : List (Predicate μ) → Option Bool
  | [] => some true
  | q :: rest => do if ← holds p q then holdsAll p rest else return false

/-- Whether one of some predicates holds, up to the first that does. -/
def holdsAny (p : FieldReader) : List (Predicate μ) → Option Bool
  | [] => some false
  | q :: rest => do if ← holds p q then return true else holdsAny p rest

end

def keeps (q : Predicate μ) (source : LayoutSource) (settings : Settings) (r : Record) : Option Bool :=
  match source.resolve r.key with
  | .ok layout => holds ⟨r, layout, settings⟩ q
  | .error _ => holds ⟨r, .empty r.key, settings⟩ q

/-- The records that a predicate holds of, in their order. A stop on any thread stops the batch, so it does
not matter which one comes to a record. -/
def filterRecords (q : Predicate μ) (source : LayoutSource) (settings : Settings) :
    List Record → Option (List Record)
  | [] => some []
  | r :: rest => do
    let kept ← keeps q source settings r
    let others ← filterRecords q source settings rest
    return if kept then r :: others else others

end EventTrace.Machine
