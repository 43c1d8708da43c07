import EventTrace.Builder.InPlace

/-!
# Builders fail before they change

Changed in place, a builder answers every call as `RecordBuilder.call` says (`event_eq`), although it
takes nothing back: whatever a call can fail at comes before its first change. So a history of calls
changes a builder only at calls that succeed, has one record at most, and is refused everything behind
it (`history_atomic`).
-/

namespace EventTrace.InPlace

variable (b : RecordBuilder)

/-! ## Checks -/

theorem run_ensureOpen :
    ensureOpen.run b = if b.finalized then .error .alreadyPacked b else .ok () b := by
  cases h : b.finalized <;> simp [ensureOpen, h]

theorem run_ensureNew (name : String) :
    (ensureNew name).run b =
      if (b.value? name).isSome then .error (.duplicateField name) b else .ok () b := by
  cases h : (b.value? name).isSome <;> simp [ensureNew, h]

/-- The check of the target leaves the state as it was, whether it passes or not. -/
theorem run_ensureDeclared (a : Addition) :
    (ensureDeclared a).run b =
      match b.checkTarget a with
      | .error e => .error e b
      | .ok () => .ok () b := by
  cases htarget : b.target with
  | none => simp [ensureDeclared, RecordBuilder.checkTarget, htarget]
  | some layout =>
    cases hspec : layout.field? a.name with
    | none => simp [ensureDeclared, RecordBuilder.checkTarget, htarget, hspec]
    | some spec =>
      by_cases htype : spec.type = a.value.type
      · simp [ensureDeclared, RecordBuilder.checkTarget, htarget, hspec, htype]
      · simp [ensureDeclared, RecordBuilder.checkTarget, htarget, hspec, htype]

theorem run_ofExcept {α : Type} (x : Except BuildError α) :
    (MonadExcept.ofExcept x : Changes α).run b =
      match x with
      | .error e => .error e b
      | .ok a => .ok a b := by
  cases x <;> rfl

/-! ## Additions -/

/-- In place, an addition does what it does to a value, and keeps the state if it fails. -/
theorem run_add (a : Addition) :
    (add a).run b =
      match b.add a with
      | .error e => .error e b
      | .ok b' => .ok () b' := by
  simp only [add, EStateM.run_bind, run_ensureOpen, RecordBuilder.add]
  cases hopen : b.finalized with
  | true => simp
  | false =>
    simp only [run_ensureNew, run_ensureDeclared]
    by_cases hnew : (b.value? a.name).isSome = true
    · simp [hnew]
    · cases hcheck : b.checkTarget a <;> simp [hnew, hcheck, hopen]

theorem run_withStack (addresses : List UInt64) :
    (withStack addresses).run b =
      match b.withStack addresses with
      | .error e => .error e b
      | .ok b' => .ok () b' := by
  simp only [withStack, EStateM.run_bind, run_ensureOpen, RecordBuilder.withStack]
  cases hopen : b.finalized <;> simp [hopen]

/-! ## Packing -/

variable [Codecs]

/-- The fields are encoded behind some data as they are from the start, and the builder stays. -/
theorem run_encodeBehind (mode : PackMode) (data : Bytes) (specs : List FieldSpec) :
    (encodeBehind mode data specs).run b =
      match b.encodeFields mode specs with
      | .error e => .error e b
      | .ok later => .ok (data ++ later) b := by
  induction specs generalizing data with
  | nil => simp [encodeBehind, RecordBuilder.encodeFields]
  | cons spec specs ih =>
    rw [encodeBehind, RecordBuilder.encodeFields]
    cases hv : b.value? spec.name with
    | none => simp [hv]
    | some v =>
      simp only [EStateM.run_bind, EStateM.run_get, hv, run_ofExcept]
      cases b.encodeField mode spec v with
      | error e => rfl
      | ok raw =>
        simp only [ih]
        cases b.encodeFields mode specs with
        | error e => rfl
        | ok later => simp [Except.map]

omit [Codecs] in
theorem recordWith_stack (data : Bytes) : recordWith b.header data b.stack = b.recordOf data := by
  cases h : b.stack <;> simp [recordWith, RecordBuilder.recordOf, h]

/-- Finishing marks the state as packed only when a record is assembled. -/
theorem run_finish (mode : PackMode) :
    (finish mode).run b =
      match b.assemble mode with
      | .error e => .error e b
      | .ok p => .ok p b.packed := by
  simp only [finish, EStateM.run_bind, EStateM.run_get, run_ofExcept, RecordBuilder.assemble]
  cases b.layout with
  | error e => rfl
  | ok layout =>
    simp only [run_encodeBehind]
    cases b.encodeFields mode layout.fields with
    | error e => rfl
    | ok data =>
      simp only [List.nil_append, ← recordWith_stack]
      rfl

omit [Codecs] in
theorem run_ensureComplete (mode : PackMode) :
    (ensureComplete mode).run b =
      if mode = .complete ∧ b.missing ≠ [] then .error (.incomplete b.key b.missing) b
      else .ok () b := by
  by_cases h : mode = .complete ∧ b.missing ≠ [] <;> simp [ensureComplete, h]

/-- In place, packing gives the record of the value, and keeps the state if it fails. -/
theorem run_pack (mode : PackMode) :
    (pack mode).run b =
      match b.pack mode with
      | .error e => .error e b
      | .ok p => .ok p b.packed := by
  simp only [pack, EStateM.run_bind, run_ensureOpen, RecordBuilder.pack]
  cases hopen : b.finalized with
  | true => simp
  | false =>
    simp only [run_ensureComplete, run_finish]
    by_cases hmissing : mode = .complete ∧ b.missing ≠ [] <;> simp [hmissing]

/-! ## Calls -/

/-- Changed in place, a builder becomes and answers what the call says. -/
theorem event_eq (c : BuilderCall) : event b c = ⟨b, c, (b.call c).2, (b.call c).1⟩ := by
  cases c with
  | add a =>
    simp only [event, call, EStateM.run_bind, run_add, RecordBuilder.call]
    cases b.add a <;> rfl
  | withStack addresses =>
    simp only [event, call, EStateM.run_bind, run_withStack, RecordBuilder.call]
    cases b.withStack addresses <;> rfl
  | edit change => rfl
  | pack mode =>
    simp only [event, call, EStateM.run_bind, run_pack, RecordBuilder.call]
    cases b.pack mode <;> rfl

/-- A call that fails leaves the builder as it was. -/
theorem after_of_reply_eq_error {c : BuilderCall} {e : BuildError}
    (h : (event b c).reply = .error e) : (event b c).after = b := by
  rw [event_eq] at h ⊢
  cases c with
  | add a =>
    simp only [RecordBuilder.call] at h ⊢
    cases hadd : b.add a with
    | error e' => rfl
    | ok b' => simp [hadd, RecordBuilder.settle] at h
  | withStack addresses =>
    simp only [RecordBuilder.call] at h ⊢
    cases hstack : b.withStack addresses with
    | error e' => rfl
    | ok b' => simp [hstack, RecordBuilder.settle] at h
  | edit change => cases h
  | pack mode =>
    simp only [RecordBuilder.call] at h ⊢
    cases hpack : b.pack mode with
    | error e' => rfl
    | ok p => simp [hpack] at h

/-- A call that packs closes the builder. -/
theorem finalized_of_packs {c : BuilderCall} (h : (event b c).packs = true) :
    (event b c).after.finalized = true := by
  rw [event_eq] at h ⊢
  cases c with
  | add a | withStack addresses | edit change => cases h
  | pack mode =>
    simp only [RecordBuilder.call] at h ⊢
    cases hpack : b.pack mode with
    | error e => simp [Event.packs, hpack] at h
    | ok p => rfl

variable {b}

/-- A closed builder refuses every call but a change of its header, and stays closed. -/
theorem event_of_finalized (h : b.finalized = true) (c : BuilderCall) :
    (event b c).packs = false ∧ (event b c).after.finalized = true ∧
      ((event b c).edits = false → (event b c).reply = .error .alreadyPacked) := by
  rw [event_eq]
  cases c with
  | add a =>
    have hadd : b.add a = .error .alreadyPacked := if_pos h
    simp [RecordBuilder.call, hadd, RecordBuilder.settle, Event.packs, h]
  | withStack addresses =>
    have hstack : b.withStack addresses = .error .alreadyPacked := if_pos h
    simp [RecordBuilder.call, hstack, RecordBuilder.settle, Event.packs, h]
  | edit change => exact ⟨rfl, h, fun hedits => by cases hedits⟩
  | pack mode =>
    have hpack : b.pack mode = .error .alreadyPacked := if_pos h
    simp [RecordBuilder.call, hpack, Event.packs, h]

/-! ## Histories -/

variable (b)

/-- Calls that change a builder in place are answered as calls on a builder are. -/
theorem reply_history (calls : List BuilderCall) :
    (history b calls).map Event.reply = (b.run calls).2 := by
  induction calls generalizing b with
  | nil => rfl
  | cons c calls ih =>
    rw [history, List.map_cons, ih, event_eq]
    rfl

/-- The builder that the last call leaves in place is the one that the calls go on to. -/
theorem after_of_getLast?_history {calls : List BuilderCall} {e : Event}
    (h : (history b calls).getLast? = some e) : e.after = (b.run calls).1 := by
  induction calls generalizing b with
  | nil => cases h
  | cons c calls ih =>
    have hrun : (b.run (c :: calls)).1 = ((event b c).after.run calls).1 := by
      rw [event_eq]
      rfl
    rw [history, List.getLast?_cons] at h
    rw [hrun]
    cases hlast : (history (event b c).after calls).getLast? with
    | none =>
      have hnil : calls = [] := by
        cases calls with
        | nil => rfl
        | cons c' calls => simp [history] at hlast
      subst hnil
      rw [hlast] at h
      cases h
      rfl
    | some e' =>
      rw [hlast] at h
      cases h
      exact ih _ hlast

/-- Every event of a history is that of some call in some state. -/
theorem exists_of_mem_history {calls : List BuilderCall} {e : Event} (h : e ∈ history b calls) :
    ∃ b' c, e = event b' c := by
  induction calls generalizing b with
  | nil => cases h
  | cons c calls ih =>
    rcases List.mem_cons.1 h with rfl | h
    · exact ⟨b, c, rfl⟩
    · exact ih _ h

variable {b}

/-- Behind a record nothing is packed, and only changes of the header are answered. -/
theorem history_of_finalized (h : b.finalized = true) {calls : List BuilderCall} {e : Event}
    (he : e ∈ history b calls) :
    e.packs = false ∧ (e.edits = false → e.reply = .error .alreadyPacked) := by
  induction calls generalizing b with
  | nil => cases he
  | cons c calls ih =>
    obtain ⟨hpacks, hafter, hreply⟩ := event_of_finalized h c
    rcases List.mem_cons.1 he with rfl | he
    · exact ⟨hpacks, hreply⟩
    · exact ih hafter he

variable (b)

/-- However many calls are made, at most one of them packs. -/
theorem countP_packs_history_le (calls : List BuilderCall) :
    (history b calls).countP Event.packs ≤ 1 := by
  induction calls generalizing b with
  | nil => exact Nat.zero_le 1
  | cons c calls ih =>
    rw [history, List.countP_cons]
    by_cases hpacks : (event b c).packs = true
    · have hnone : (history (event b c).after calls).countP Event.packs = 0 := by
        rw [List.countP_eq_zero]
        intro e he
        simp [(history_of_finalized (finalized_of_packs b hpacks) he).1]
      simp [hnone, hpacks]
    · rw [if_neg hpacks]
      exact ih _

/-- Behind the call that packed, every call but an edit is refused because there is a record. -/
theorem reply_of_packs_before {calls : List BuilderCall} {earlier later : List Event} {e e' : Event}
    (h : history b calls = earlier ++ e :: later) (he : e.packs = true) (he' : e' ∈ later)
    (hedits : e'.edits = false) : e'.reply = .error .alreadyPacked := by
  induction calls generalizing b earlier with
  | nil => simp [history] at h
  | cons c calls ih =>
    rw [history] at h
    cases earlier with
    | nil =>
      obtain ⟨rfl, rfl⟩ := List.cons.inj h
      exact (history_of_finalized (finalized_of_packs b he) he').2 hedits
    | cons e₀ earlier => exact ih _ (List.cons.inj h).2

/-- Calls that change a builder in place have the answers and the outcome of calls on a builder that
goes on as a whole. One that fails has left the builder as it was, one record is packed at most, and
behind it every call is refused whatever it asks, but for changes of the header. -/
theorem history_atomic (calls : List BuilderCall) :
    ((history b calls).map Event.reply = (b.run calls).2 ∧
      ∀ e, (history b calls).getLast? = some e → e.after = (b.run calls).1) ∧
    (∀ e ∈ history b calls, ∀ error, e.reply = .error error → e.after = e.before) ∧
    (history b calls).countP Event.packs ≤ 1 ∧
    ∀ earlier e later, history b calls = earlier ++ e :: later → e.packs = true →
      ∀ e' ∈ later, e'.edits = false → e'.reply = .error .alreadyPacked := by
  refine ⟨⟨reply_history b calls, fun e he => after_of_getLast?_history b he⟩, ?_,
    countP_packs_history_le b calls, ?_⟩
  · intro e he error herror
    obtain ⟨b', c, rfl⟩ := exists_of_mem_history b he
    have hbefore : (event b' c).before = b' := by rw [event_eq]
    rw [hbefore]
    exact after_of_reply_eq_error b' herror
  · intro earlier e later hsplit hpacks e' he' hedits
    exact reply_of_packs_before b hsplit hpacks he' hedits

end EventTrace.InPlace
