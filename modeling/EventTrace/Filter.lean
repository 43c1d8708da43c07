import EventTrace.Predicate.Basic

/-!
# Filters

Predicates put to work on records whose layouts come from a source. A batch keeps the records that a
predicate holds of; one without a layout is seen without fields, so that its header alone decides. The
records of a batch are shared out among the threads of a pool.
Dispatching hands a record that holds to the observers of events, and one without a layout to the
observers of errors.
-/

namespace EventTrace

/-! ## Pools -/

/-- What is kept of some items, and what looking at all of them left behind. -/
structure Sieved (α μ : Type) where
  kept : List α
  trail : Trail μ

/-- Threads that look at items for a caller. -/
class Pool where
  /-- Keeps the items that a test holds of, with a number of threads; zero leaves the number open. -/
  sieve {α μ : Type} (threads : Nat) (test : α → Evaluation μ) (items : List α) : Sieved α μ

/-- One thread, which goes through the items from first to last. It stands in where no pool is brought
along. -/
instance (priority := low) Pool.sequential : Pool where
  sieve _ test items :=
    ⟨items.filter fun a => (test a).result, .joined (items.map fun a => (test a).trail)⟩

/-- What a pool owes its users. It keeps the right items in their order. Whichever thread comes to an item,
and whenever, the item is looked at once, and what that leaves behind stays in its order. -/
structure Pool.Lawful (pool : Pool) : Prop where
  kept : ∀ {α μ : Type} (threads : Nat) (test : α → Evaluation μ) (items : List α),
    (pool.sieve threads test items).kept = items.filter fun a => (test a).result
  once : ∀ {α μ : Type} (threads : Nat) (test : α → Evaluation μ) (items : List α),
    (pool.sieve threads test items).trail.Perm (.joined (items.map fun a => (test a).trail))
  ordered : ∀ {α μ : Type} (threads : Nat) (test : α → Evaluation μ) (items : List α),
    ∀ a ∈ items, (test a).trail.Sublist (pool.sieve threads test items).trail

/-! ## Batches -/

section Batches

variable {μ : Type} [Codecs]

/-- Evaluates a predicate on a record with the layout that a source has for it, or without fields. -/
def Predicate.evaluateRecord (q : Predicate μ) (source : LayoutSource) (settings : Settings)
    (r : Record) : Evaluation μ :=
  match source.resolve r.key with
  | .ok layout => q.evaluate ⟨r, layout, settings⟩
  | .error e =>
    (q.evaluate ⟨r, .empty r.key, settings⟩).after
      { lines := [⟨.trace, e.message ++ ", evaluating header predicates only"⟩] }

def Predicate.keeps (q : Predicate μ) (source : LayoutSource) (settings : Settings) (r : Record) :
    Bool :=
  (q.evaluateRecord source settings r).result

variable [Pool] (q : Predicate μ) (source : LayoutSource) (settings : Settings)

/-- The records that a predicate holds of, and what evaluating it on all of them left behind. -/
def filterRecords (records : List Record) : Sieved Record μ :=
  Pool.sieve settings.threads (q.evaluateRecord source settings) records

def filterIndices (records : List Record) : List Nat :=
  let evaluate (placed : Record × Nat) := q.evaluateRecord source settings placed.1
  (Pool.sieve settings.threads evaluate records.zipIdx).kept.map Prod.snd

end Batches

/-! ## Dispatch -/

variable {μ : Type} [Codecs]

/-- A predicate with the events that it is asked about and those who are told of the outcome. -/
structure EventFilter (μ : Type) where
  /-- The events to look at; without a list, all of them. -/
  eventIds : Option (List UInt16) := none
  predicate : Predicate μ := .any
  settings : Settings := {}
  /-- What to do with a record that the predicate holds of. -/
  onEvent : List (FieldReader → Trail μ) := []
  /-- What to do with a record that has no layout. -/
  onError : List (Record × LayoutError → Trail μ) := []

namespace EventFilter

def admits (f : EventFilter μ) (eventId : UInt16) : Bool :=
  match f.eventIds with
  | none => true
  | some ids => ids.contains eventId

def observe {α : Type} (observers : List (α → Trail μ)) (a : α) : Trail μ :=
  observers.foldl (fun t observer => t ++ observer a) {}

/-- Feeds a record to the filter. The outcome says whether the observers of events were called. -/
def dispatch (f : EventFilter μ) (source : LayoutSource) (r : Record) : Evaluation μ :=
  if f.admits r.header.eventId then
    match source.resolve r.key with
    | .error e => ⟨false, observe f.onError (r, e)⟩
    | .ok layout =>
      let p : FieldReader := ⟨r, layout, f.settings⟩
      (f.predicate.evaluate p).and ⟨true, observe f.onEvent p⟩
  else .constant false

def inspect (f : EventFilter μ) : String :=
  let ids := f.eventIds.map fun ids => Text.bracketed (ids.map fun id => toString id.toNat)
  Text.membered "EventFilter"
    [("event_ids", Text.optional ids),
      ("predicate", f.predicate.inspect),
      ("on_event", toString f.onEvent.length),
      ("on_error", toString f.onError.length)]

end EventFilter

end EventTrace
