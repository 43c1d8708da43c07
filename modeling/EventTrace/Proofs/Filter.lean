import EventTrace.Filter
import Mathlib.Logic.ExistsUnique

/-!
# Batches and dispatch

A batch and a filter decide alike about a record that has a layout, and the predicate leaves the same
behind both times (`EventFilter.dispatch_unlisted`). Whatever threads a pool has, a batch keeps its
records in their order and leaves behind what the predicate does on each (`kept_filterRecords`,
`trail_filterRecords`). A record takes one of four courses through a filter, each of which says who is
called and when (`EventFilter.takes_course`).
-/

namespace EventTrace

variable {μ : Type}

/-! ## Sources and pools -/

/-- A single layout resolves its own key and knows no other. -/
theorem LayoutSource.lawful_single (l : Layout) : (single l).Lawful := by
  intro key e h
  rw [resolve_single] at h
  split at h
  · cases h
  · exact (Except.error.inj h).symm

/-- A registry fails only for keys that it does not know. -/
theorem LayoutSource.lawful_registry (r : Registry) : (registry r).Lawful := by
  intro key e h
  rw [resolve_registry, Registry.resolve] at h
  split at h
  · cases h
  · exact (Except.error.inj h).symm

theorem Pool.lawful_sequential : Pool.sequential.Lawful where
  kept _ _ _ := rfl
  once _ _ _ := ⟨.rfl, .rfl⟩
  ordered _ _ _ _ ha := Trail.sublist_joined (List.mem_map_of_mem ha)

/-! ## Observers -/

/-- What observers leave behind that are called once each, in their order. -/
def Trail.ofEach {α : Type} (observers : List (α → Trail μ)) (a : α) : Trail μ :=
  .joined (observers.map (· a))

/-- Observers are called in the order they were given. -/
theorem EventFilter.observe_eq {α : Type} (observers : List (α → Trail μ)) (a : α) :
    observe observers a = .ofEach observers a := by
  have hfold : ∀ t : Trail μ,
      observers.foldl (fun t observer => t ++ observer a) t = t ++ .ofEach observers a := by
    induction observers with
    | nil => exact fun t => t.append_empty.symm
    | cons o rest ih =>
      intro t
      rw [List.foldl_cons, ih, Trail.append_assoc, Trail.append_def (o a)]
      rfl
  rw [observe, hfold, Trail.empty_append]

/-- The right operand is asked only where the left one holds. -/
theorem Evaluation.trail_and (a b : Evaluation μ) :
    (a.and b).trail = a.trail ++ if a.result then b.trail else {} := by
  rw [Evaluation.and]
  by_cases h : a.result = true
  · rw [if_pos h, if_pos h]
    rfl
  · rw [if_neg h, if_neg h, Trail.append_empty]

/-! ## Numbers of threads -/

def FieldReader.withThreads (p : FieldReader) (threads : Nat) : FieldReader :=
  { p with settings := { p.settings with threads } }

namespace Predicate

mutual

/-- The conditions of a caller's own in a predicate. -/
def leaves : Predicate μ → List (FieldReader → Evaluation μ)
  | .custom leaf => [leaf]
  | .and left right | .or left right => leaves left ++ leaves right
  | .not inner => leaves inner
  | .allOf inner | .anyOf inner => leavesEach inner
  | .any | .header _ | .fieldEq _ _ | .text _ _ _ _ => []

def leavesEach : List (Predicate μ) → List (FieldReader → Evaluation μ)
  | [] => []
  | q :: rest => leaves q ++ leavesEach rest

end

/-- Whether the number of threads is nothing to a condition of a caller's own. -/
def IgnoresThreads (leaf : FieldReader → Evaluation μ) : Prop :=
  ∀ p threads, leaf (p.withThreads threads) = leaf p

end Predicate

section

variable [Codecs]

/-- How many threads there are does not change where fields lie. -/
theorem walkFrom_threads (settings : Settings) (threads : Nat) (data : Bytes)
    (earlier : List Located) (specs : List FieldSpec) :
    walkFrom { settings with threads } data earlier specs = walkFrom settings data earlier specs := by
  induction specs generalizing earlier with
  | nil => rfl
  | cons spec later ih =>
    rw [walkFrom, walkFrom]
    simp only [ih]
    rfl

namespace FieldReader

variable (p : FieldReader) (threads : Nat)

theorem walk_withThreads (specs : List FieldSpec) :
    walk (p.withThreads threads).settings (p.withThreads threads).data specs =
      walk p.settings p.data specs :=
  walkFrom_threads p.settings threads p.data [] specs

theorem locateAfter_withThreads : (p.withThreads threads).locateAfter = p.locateAfter := by
  funext before spec
  rw [locateAfter, locateAfter, walk_withThreads]
  rfl

theorem read_withThreads : (p.withThreads threads).read = p.read := by
  funext request name
  rw [read, read, locateAfter_withThreads]
  rfl

theorem readLines_withThreads : (p.withThreads threads).readLines = p.readLines := by
  funext request name
  have hlines : (p.withThreads threads).locateAfterLines = p.locateAfterLines := by
    funext before spec
    rw [locateAfterLines, locateAfterLines, locateAfter_withThreads, walk_withThreads]
  rw [readLines, readLines, hlines]
  rfl

end FieldReader

namespace Predicate

variable {p p' : FieldReader}

theorem fieldLeaf_congr {field : String} {request : Request}
    (hread : p.read request field = p'.read request field)
    (hlines : p.readLines request field = p'.readLines request field) (decide : Extract → Bool) :
    (fieldLeaf p field request decide : Evaluation μ) = fieldLeaf p' field request decide := by
  simp only [fieldLeaf, hread, hlines]

mutual

/-- A predicate tells readers apart only by the headers of their records, by what fields are read as and
what that reports, and by its conditions of a caller's own. -/
theorem evaluate_congr (hheader : p.record.header = p'.record.header) (hread : p.read = p'.read)
    (hlines : p.readLines = p'.readLines) :
    ∀ q : Predicate μ, (∀ leaf ∈ q.leaves, leaf p = leaf p') → evaluate p q = evaluate p' q
  | .any, _ => rfl
  | .header _, _ => by rw [evaluate, evaluate, hheader]
  | .fieldEq _ _, _ => fieldLeaf_congr (by rw [hread]) (by rw [hlines]) _
  | .text _ _ _ _, _ => fieldLeaf_congr (by rw [hread]) (by rw [hlines]) _
  | .and left right, h => by
    rw [leaves, List.forall_mem_append] at h
    rw [evaluate, evaluate, evaluate_congr hheader hread hlines left h.1,
      evaluate_congr hheader hread hlines right h.2]
  | .or left right, h => by
    rw [leaves, List.forall_mem_append] at h
    rw [evaluate, evaluate, evaluate_congr hheader hread hlines left h.1,
      evaluate_congr hheader hread hlines right h.2]
  | .not inner, h => by
    rw [leaves] at h
    rw [evaluate, evaluate, evaluate_congr hheader hread hlines inner h]
  | .allOf inner, h => by
    rw [leaves] at h
    rw [evaluate, evaluate, (evaluateEach_congr hheader hread hlines inner h).1]
  | .anyOf inner, h => by
    rw [leaves] at h
    rw [evaluate, evaluate, (evaluateEach_congr hheader hread hlines inner h).2]
  | .custom leaf, h => h leaf (by rw [leaves]; exact List.mem_singleton_self leaf)

theorem evaluateEach_congr (hheader : p.record.header = p'.record.header) (hread : p.read = p'.read)
    (hlines : p.readLines = p'.readLines) :
    ∀ qs : List (Predicate μ), (∀ leaf ∈ leavesEach qs, leaf p = leaf p') →
      evaluateAll p qs = evaluateAll p' qs ∧ evaluateAny p qs = evaluateAny p' qs
  | [], _ => ⟨rfl, rfl⟩
  | q :: rest, h => by
    rw [leavesEach, List.forall_mem_append] at h
    obtain ⟨hall, hany⟩ := evaluateEach_congr hheader hread hlines rest h.2
    have hq := evaluate_congr hheader hread hlines q h.1
    exact ⟨by rw [evaluateAll, evaluateAll, hq, hall], by rw [evaluateAny, evaluateAny, hq, hany]⟩

end

/-- The number of threads is nothing to a predicate, unless it is to a condition of a caller's own. -/
theorem evaluate_withThreads (p : FieldReader) (threads : Nat) {q : Predicate μ}
    (h : ∀ leaf ∈ q.leaves, IgnoresThreads leaf) :
    evaluate (p.withThreads threads) q = evaluate p q := by
  have hheader : (p.withThreads threads).record.header = p.record.header := rfl
  refine evaluate_congr hheader (p.read_withThreads threads) (p.readLines_withThreads threads) q ?_
  intro leaf hleaf
  exact h leaf hleaf p threads

/-- The number of threads is nothing to what a predicate comes to on a record, unless it is to a
condition of a caller's own. -/
theorem evaluateRecord_threads {q : Predicate μ} (h : ∀ leaf ∈ q.leaves, IgnoresThreads leaf)
    (source : LayoutSource) (settings : Settings) (threads : Nat) (r : Record) :
    q.evaluateRecord source { settings with threads } r = q.evaluateRecord source settings r := by
  have heval : ∀ layout, q.evaluate ⟨r, layout, { settings with threads }⟩ =
      q.evaluate ⟨r, layout, settings⟩ := fun layout =>
    evaluate_withThreads ⟨r, layout, settings⟩ threads h
  simp only [evaluateRecord, heval]

end Predicate

/-! ## Batches -/

section Batches

variable [pool : Pool] (hpool : pool.Lawful) (q : Predicate μ) (source : LayoutSource)
  (settings : Settings)

include hpool

theorem kept_filterRecords (records : List Record) :
    (filterRecords q source settings records).kept = records.filter (q.keeps source settings) :=
  hpool.kept _ _ _

/-- Evaluations on one record after the other leave the same behind as a batch of them, up to the order
of the records. -/
theorem trail_filterRecords (records : List Record) :
    (filterRecords q source settings records).trail.Perm
        (.joined (records.map fun r => (q.evaluateRecord source settings r).trail)) ∧
      ∀ r ∈ records, (q.evaluateRecord source settings r).trail.Sublist
        (filterRecords q source settings records).trail :=
  ⟨hpool.once _ _ _, hpool.ordered _ _ _⟩

theorem trail_filterRecords_singleton (r : Record) :
    (filterRecords q source settings [r]).trail = (q.evaluateRecord source settings r).trail := by
  obtain ⟨hperm, hsublist⟩ := trail_filterRecords hpool q source settings [r]
  rw [List.map_singleton, Trail.joined_singleton] at hperm
  exact (hsublist r (List.mem_singleton_self r)).eq_of_perm hperm

theorem filterIndices_eq (records : List Record) :
    filterIndices q source settings records =
      (records.zipIdx.filter fun placed => q.keeps source settings placed.1).map Prod.snd := by
  rw [filterIndices, hpool.kept]
  rfl

/-- A place is kept exactly if the predicate holds of the record there. -/
theorem mem_filterIndices_iff {records : List Record} {i : Nat} :
    i ∈ filterIndices q source settings records ↔
      ∃ r, records[i]? = some r ∧ q.keeps source settings r = true := by
  simp only [filterIndices_eq hpool, List.mem_map, List.mem_filter, Prod.exists, exists_eq_right,
    List.mk_mem_zipIdx_iff_getElem?]

/-- Places are kept in their order, and none twice. -/
theorem pairwise_filterIndices (records : List Record) :
    (filterIndices q source settings records).Pairwise (· < ·) := by
  have hsorted : (records.zipIdx.map Prod.snd).Pairwise (· < ·) := by
    rw [List.zipIdx_map_snd]
    exact List.pairwise_lt_range'
  rw [filterIndices_eq hpool]
  exact hsorted.sublist (List.filter_sublist.map Prod.snd)

/-- The records that are kept are those in the places that are kept. -/
theorem map_filterIndices (records : List Record) :
    (filterIndices q source settings records).map (records[·]?) =
      (filterRecords q source settings records).kept.map some := by
  have hplaced : ∀ placed ∈ records.zipIdx.filter fun placed => q.keeps source settings placed.1,
      records[placed.2]? = some placed.1 := by
    rintro ⟨r, i⟩ hmem
    exact List.mk_mem_zipIdx_iff_getElem?.1 (List.mem_filter.1 hmem).1
  have hkept : records.filter (q.keeps source settings) =
      (records.zipIdx.filter fun placed => q.keeps source settings placed.1).map Prod.fst := by
    have hmap := List.filter_map (f := Prod.fst) (p := q.keeps source settings) (l := records.zipIdx)
    rwa [List.zipIdx_map_fst] at hmap
  rw [kept_filterRecords hpool, hkept, filterIndices_eq hpool, List.map_map, List.map_map]
  exact List.map_congr_left hplaced

end Batches

/-! ## Dispatch -/

namespace EventFilter

variable (f : EventFilter μ) {source : LayoutSource} {r : Record} {layout : Layout}

def unlisted : EventFilter μ := { f with eventIds := none }

/-- What a record comes to in a filter. -/
inductive Course where
  /-- Its event is not listed. -/
  | skipped
  /-- It has no layout. -/
  | unknown
  /-- The predicate does not hold of it. -/
  | refused
  /-- The predicate holds of it. -/
  | accepted
deriving DecidableEq

/-- Whether a record takes a course through a filter, which says what is called in which order and what
the filter reports. A record that is skipped is so whatever its source. -/
def Takes (source : LayoutSource) (r : Record) : Course → Prop
  | .skipped =>
    f.admits r.header.eventId = false ∧ ∀ source, f.dispatch source r = .constant false
  | .unknown =>
    f.admits r.header.eventId = true ∧ source.resolve r.key = .error (.notFound r.key) ∧
      f.dispatch source r = ⟨false, .ofEach f.onError (r, .notFound r.key)⟩
  | .refused =>
    f.admits r.header.eventId = true ∧ ∃ layout, source.resolve r.key = .ok layout ∧
      (f.predicate.evaluate ⟨r, layout, f.settings⟩).result = false ∧
      f.dispatch source r = f.predicate.evaluate ⟨r, layout, f.settings⟩
  | .accepted =>
    f.admits r.header.eventId = true ∧ ∃ layout, source.resolve r.key = .ok layout ∧
      (f.predicate.evaluate ⟨r, layout, f.settings⟩).result = true ∧
      f.dispatch source r =
        ⟨true, (f.predicate.evaluate ⟨r, layout, f.settings⟩).trail ++
          .ofEach f.onEvent ⟨r, layout, f.settings⟩⟩

variable {f}

theorem dispatch_of_not_admits (h : f.admits r.header.eventId = false) (source : LayoutSource) :
    f.dispatch source r = .constant false := by
  rw [dispatch, h]
  rfl

theorem dispatch_of_resolve_error (hadmits : f.admits r.header.eventId = true) {e : LayoutError}
    (h : source.resolve r.key = .error e) : f.dispatch source r = ⟨false, .ofEach f.onError (r, e)⟩ := by
  simp only [dispatch, hadmits, if_true, h, observe_eq]

theorem dispatch_of_resolve (hadmits : f.admits r.header.eventId = true)
    (h : source.resolve r.key = .ok layout) :
    f.dispatch source r = (f.predicate.evaluate ⟨r, layout, f.settings⟩).and
      ⟨true, .ofEach f.onEvent ⟨r, layout, f.settings⟩⟩ := by
  simp only [dispatch, hadmits, if_true, h, observe_eq]

def course (f : EventFilter μ) (source : LayoutSource) (r : Record) : Course :=
  if f.admits r.header.eventId then
    match source.resolve r.key with
    | .error _ => .unknown
    | .ok layout =>
      if (f.predicate.evaluate ⟨r, layout, f.settings⟩).result then .accepted else .refused
  else .skipped

variable {c : Course}

/-- An event takes the course that its evaluation describes. -/
theorem takes_course (f : EventFilter μ) (hsource : source.Lawful) (r : Record) :
    f.Takes source r (f.course source r) := by
  rw [course]
  by_cases hadmits : f.admits r.header.eventId = true
  · rw [if_pos hadmits]
    cases hresolve : source.resolve r.key with
    | error e =>
      obtain rfl := hsource _ _ hresolve
      exact ⟨hadmits, hresolve, dispatch_of_resolve_error hadmits hresolve⟩
    | ok layout =>
      have hdispatch := dispatch_of_resolve hadmits hresolve
      by_cases hresult : (f.predicate.evaluate ⟨r, layout, f.settings⟩).result = true
      · simp only [if_pos hresult]
        rw [Evaluation.and, if_pos hresult] at hdispatch
        exact ⟨hadmits, layout, hresolve, hresult, hdispatch⟩
      · simp only [if_neg hresult]
        rw [Evaluation.and, if_neg hresult] at hdispatch
        exact ⟨hadmits, layout, hresolve, Bool.eq_false_iff.2 hresult, hdispatch⟩
  · rw [if_neg hadmits]
    have hskipped := Bool.eq_false_iff.2 hadmits
    exact ⟨hskipped, fun source => dispatch_of_not_admits hskipped source⟩

/-- An event takes no other course. -/
theorem eq_course_of_takes {c : Course} (h : f.Takes source r c) : c = f.course source r := by
  rw [course]
  cases c with
  | skipped => simp [h.1]
  | unknown =>
    obtain ⟨hadmits, hresolve, -⟩ := h
    simp [hadmits, hresolve]
  | refused =>
    obtain ⟨hadmits, layout, hresolve, hresult, -⟩ := h
    simp [hadmits, hresolve, hresult]
  | accepted =>
    obtain ⟨hadmits, layout, hresolve, hresult, -⟩ := h
    simp [hadmits, hresolve, hresult]

/-- A record is accepted in one of its courses only. -/
theorem result_eq_true_iff (h : f.Takes source r c) :
    (f.dispatch source r).result = true ↔ c = .accepted := by
  cases c with
  | skipped => simp [h.2 source, Evaluation.constant]
  | unknown => simp [h.2.2]
  | refused =>
    obtain ⟨-, layout, -, hresult, hdispatch⟩ := h
    simp [hdispatch, hresult]
  | accepted =>
    obtain ⟨-, layout, -, -, hdispatch⟩ := h
    simp [hdispatch]

/-- A filter without a list of events goes on from what the predicate comes to in a batch. -/
theorem dispatch_unlisted (h : source.resolve r.key = .ok layout) :
    f.unlisted.dispatch source r = (f.predicate.evaluateRecord source f.settings r).and
      ⟨true, .ofEach f.onEvent ⟨r, layout, f.settings⟩⟩ := by
  have hrecord : f.predicate.evaluateRecord source f.settings r =
      f.predicate.evaluate ⟨r, layout, f.settings⟩ := by
    simp only [Predicate.evaluateRecord, h]
  rw [hrecord]
  exact dispatch_of_resolve (f := f.unlisted) rfl h

/-- Whether a filter and batches with its predicate agree, where layouts come from a source and the
records of a batch are shared out among the threads of a pool. -/
structure BatchesAgree [Pool] (f : EventFilter μ) (source : LayoutSource) : Prop where
  /-- A record that has a layout is kept exactly if the filter without a list of events accepts it, and
  the predicate leaves the same behind both times, before any observer is called. -/
  keeps : ∀ r layout, source.resolve r.key = .ok layout →
    f.predicate.keeps source f.settings r = (f.unlisted.dispatch source r).result ∧
      (f.unlisted.dispatch source r).trail =
        (f.predicate.evaluateRecord source f.settings r).trail ++
          if f.predicate.keeps source f.settings r then
            .ofEach f.onEvent ⟨r, layout, f.settings⟩ else {}
  /-- A batch leaves behind what the predicate does on each of its records, once and in its order; only
  on different records do the threads come in any order. -/
  trails : ∀ records,
    (filterRecords f.predicate source f.settings records).trail.Perm (.joined
        (records.map fun r => (f.predicate.evaluateRecord source f.settings r).trail)) ∧
      (∀ r ∈ records, (f.predicate.evaluateRecord source f.settings r).trail.Sublist
        (filterRecords f.predicate source f.settings records).trail) ∧
      ∀ r, records = [r] → (filterRecords f.predicate source f.settings records).trail =
        (f.predicate.evaluateRecord source f.settings r).trail
  /-- A batch keeps the records in those places whose records are kept, in the order of the places. -/
  places : ∀ records,
    (filterRecords f.predicate source f.settings records).kept =
        records.filter (f.predicate.keeps source f.settings) ∧
      (filterIndices f.predicate source f.settings records).map (records[·]?) =
        (filterRecords f.predicate source f.settings records).kept.map some ∧
      (filterIndices f.predicate source f.settings records).Pairwise (· < ·) ∧
      ∀ i, i ∈ filterIndices f.predicate source f.settings records ↔
        ∃ r, records[i]? = some r ∧ f.predicate.keeps source f.settings r = true
  /-- The number of threads is nothing to a batch, unless it is to a condition of a caller's own. -/
  threads : ∀ threads, (∀ leaf ∈ f.predicate.leaves, Predicate.IgnoresThreads leaf) →
    ∀ records,
      (filterRecords f.predicate source { f.settings with threads } records).kept =
          (filterRecords f.predicate source f.settings records).kept ∧
        (filterRecords f.predicate source { f.settings with threads } records).trail.Perm
          (filterRecords f.predicate source f.settings records).trail
  /-- A record takes one course through the filter, and the outcome is true on the last one only. -/
  courses : ∀ r, (∃! course, f.Takes source r course) ∧
    ((f.dispatch source r).result = true ↔ f.Takes source r .accepted)

/-- Filters and batches agree, whatever the source of layouts and the pool. -/
theorem batches_agree [pool : Pool] (hpool : pool.Lawful) (f : EventFilter μ)
    (hsource : source.Lawful) : f.BatchesAgree source where
  keeps r layout hresolve := by
    rw [dispatch_unlisted hresolve, Evaluation.result_and, Evaluation.trail_and, Bool.and_true]
    exact ⟨rfl, rfl⟩
  trails records := by
    obtain ⟨hperm, hsublist⟩ := trail_filterRecords hpool f.predicate source f.settings records
    refine ⟨hperm, hsublist, ?_⟩
    rintro r rfl
    exact trail_filterRecords_singleton hpool _ _ _ r
  places records :=
    ⟨kept_filterRecords hpool _ _ _ records, map_filterIndices hpool _ _ _ records,
      pairwise_filterIndices hpool _ _ _ records, fun _ => mem_filterIndices_iff hpool _ _ _⟩
  threads threads hleaves records := by
    have hrecord : f.predicate.evaluateRecord source { f.settings with threads } =
        f.predicate.evaluateRecord source f.settings := by
      funext r
      exact Predicate.evaluateRecord_threads hleaves source f.settings threads r
    have hkeeps : f.predicate.keeps source { f.settings with threads } =
        f.predicate.keeps source f.settings := by
      funext r
      rw [Predicate.keeps, Predicate.keeps, hrecord]
    constructor
    · rw [kept_filterRecords hpool, kept_filterRecords hpool, hkeeps]
    · obtain ⟨hperm, -⟩ :=
        trail_filterRecords hpool f.predicate source { f.settings with threads } records
      obtain ⟨hperm', -⟩ := trail_filterRecords hpool f.predicate source f.settings records
      rw [hrecord] at hperm
      exact hperm.trans hperm'.symm
  courses r := by
    have htakes := takes_course f hsource r
    refine ⟨⟨_, htakes, fun c hc => eq_course_of_takes hc⟩, ?_⟩
    rw [result_eq_true_iff htakes]
    constructor
    · intro h
      exact h ▸ htakes
    · intro h
      exact (eq_course_of_takes h).symm

end EventFilter

end

namespace EventFilter

/-- A filter whose predicate leaves behind which events it is asked about. -/
def probing : EventFilter UInt16 where
  predicate := .custom fun p => ⟨true, { marks := [p.record.header.eventId] }⟩

def blank (eventId : UInt16) : Record := .new (.new .nil eventId 0) []

/-- Three events, all kept in their order, and the marks that the predicate left of them. -/
theorem batches_agree_probing :
    let source := LayoutSource.single (.empty ⟨1, 0⟩)
    let batch := filterRecords probing.predicate source {} [blank 1, blank 2, blank 1]
    Pool.sequential.Lawful ∧ source.Lawful ∧ batch.kept = [blank 1, blank 2, blank 1] ∧
      batch.trail.marks.Perm [1, 2, 1] ∧ ∃! course, probing.Takes source (blank 2) course := by
  intro source batch
  have hsource : source.Lawful := LayoutSource.lawful_single (.empty ⟨1, 0⟩)
  have hagree : probing.BatchesAgree source := batches_agree Pool.lawful_sequential probing hsource
  obtain ⟨hkept, -⟩ := hagree.places [blank 1, blank 2, blank 1]
  obtain ⟨⟨hmarks, -⟩, -⟩ := hagree.trails [blank 1, blank 2, blank 1]
  exact ⟨Pool.lawful_sequential, hsource, hkept, hmarks, (hagree.courses (blank 2)).1⟩

end EventFilter

end EventTrace
