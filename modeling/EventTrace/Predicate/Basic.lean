import EventTrace.Predicate.Evaluation
import EventTrace.Predicate.Header
import EventTrace.Predicate.Text
import EventTrace.Reading.Reader

/-!
# Predicates

Conditions on records: on the header, on the value or the text of a field, on whatever a caller
supplies, and Boolean combinations of these. A condition on a field that cannot be read does not
hold. Combinations go from left to right and stop as soon as the outcome is known.
-/

namespace EventTrace

/-- A condition on records. Leaves of a caller's own may set marks of a type `μ`. -/
inductive Predicate (μ : Type) where
  | any
  | header (test : HeaderTest)
  /-- The field agrees with a value. -/
  | fieldEq (field : String) (value : FieldValue)
  /-- The field is a string that passes a test. -/
  | text (field : String) (test : TextTest) (needle : String) (mode : CaseMode)
  | and (left right : Predicate μ)
  | or (left right : Predicate μ)
  | not (inner : Predicate μ)
  | allOf (inner : List (Predicate μ))
  | anyOf (inner : List (Predicate μ))
  | custom (leaf : FieldReader → Evaluation μ)

instance {μ : Type} : Inhabited (Predicate μ) := ⟨.any⟩

namespace Predicate

variable {μ : Type}

/-- Makes a test of a text take letters in either case as the same; other predicates stay. -/
def ignoreCase : Predicate μ → Predicate μ
  | .text field test needle _ => .text field test needle .ignoreCase
  | p => p

variable [Codecs]

/-- The evaluation of a leaf that reads a field and then decides. -/
def fieldLeaf (p : FieldReader) (field : String) (request : Request) (decide : Extract → Bool) :
    Evaluation μ :=
  let looked := p.readLines request field
  match p.read request field with
  | .ok x => ⟨decide x, { lines := looked }⟩
  | .error e =>
    ⟨false, { lines := looked ++ [⟨.trace, "`" ++ field ++ "` does not match: " ++ e.message⟩] }⟩

def extractAgrees (expected : FieldValue) : Extract → Bool
  | .value v => v.agrees expected
  | _ => false

def extractPasses (test : TextTest) (needle : String) (mode : CaseMode) : Extract → Bool
  | .text s => test.holds mode s needle
  | _ => false

mutual

def evaluate (p : FieldReader) : Predicate μ → Evaluation μ
  | .any => .constant true
  | .header test => .constant (test.holds p.record.header)
  | .fieldEq field value => fieldLeaf p field .any (extractAgrees value)
  | .text field test needle mode => fieldLeaf p field .text (extractPasses test needle mode)
  | .and left right => (evaluate p left).and (evaluate p right)
  | .or left right => (evaluate p left).or (evaluate p right)
  | .not inner => (evaluate p inner).not
  | .allOf inner => evaluateAll p inner
  | .anyOf inner => evaluateAny p inner
  | .custom leaf => leaf p

/-- Evaluates predicates until one does not hold. -/
def evaluateAll (p : FieldReader) : List (Predicate μ) → Evaluation μ
  | [] => .constant true
  | q :: rest => (evaluate p q).and (evaluateAll p rest)

/-- Evaluates predicates until one holds. -/
def evaluateAny (p : FieldReader) : List (Predicate μ) → Evaluation μ
  | [] => .constant false
  | q :: rest => (evaluate p q).or (evaluateAny p rest)

end

def holds (q : Predicate μ) (p : FieldReader) : Bool := (q.evaluate p).result

/-! ## Inspection -/

mutual

def inspect : Predicate μ → String
  | .any => "Any"
  | .header test => Text.applied "MetadataEq" test.inspect
  | .fieldEq field value =>
    Text.membered "FieldEq" [("field", Text.quoted field), ("value", value.inspect)]
  | .text field test needle mode =>
    Text.membered "Text"
      [("field", Text.quoted field), ("op", test.inspect), ("needle", Text.quoted needle),
        ("case", mode.inspect)]
  | .and left right => Text.applied "And" (inspect left ++ ", " ++ inspect right)
  | .or left right => Text.applied "Or" (inspect left ++ ", " ++ inspect right)
  | .not inner => Text.applied "Not" (inspect inner)
  | .allOf inner => Text.applied "AllOf" (Text.bracketed (inspectEach inner))
  | .anyOf inner => Text.applied "AnyOf" (Text.bracketed (inspectEach inner))
  | .custom _ => Text.applied "Custom" "CustomPredicate"

def inspectEach : List (Predicate μ) → List String
  | [] => []
  | q :: rest => inspect q :: inspectEach rest

end

end Predicate

end EventTrace
