import EventTrace.Builder.Machine
import EventTrace.Proofs.Builder.RoundTrip
import EventTrace.Proofs.Reading.Machine
import Mathlib.Algebra.Ring.Nat

/-!
# Lengths while packing

What a machine packs is what a builder packs. It stops exactly if some first fields, or all fields with
the stack, come to more bytes than a vector holds. The bytes of the values cannot do that, nor can the
terminators and counts, but the widths of fields can, since a layout may have any width for bytes
(`Machine.pack_refines`, `Machine.pack_stops_vast`).
-/

namespace EventTrace

/-! ## Lengths of encodings -/

/-- The width of a field that has a fixed one. -/
def FieldSpec.fixedWidth (spec : FieldSpec) : Nat :=
  match spec.rule with
  | .fixed width => width
  | _ => 0

/-- How many bytes a value has, if it has any. -/
def FieldValue.encodedLength [Codecs] (codec : Codec) (v : FieldValue) : Nat :=
  match v.encode codec with
  | .ok raw => raw.length
  | .error _ => 0

namespace RecordBuilder

section

variable [Codecs] (b : RecordBuilder)

/-- How many bytes the values of a builder have together. -/
def suppliedLength : Nat := (b.additions.map fun a => a.value.encodedLength b.codec).sum

def heldLength (name : String) : Nat := ((b.value? name).map (·.encodedLength b.codec)).getD 0

omit [Codecs] in
def stackLength : Nat := Record.addressWidth * (b.stack.getD []).length

/-- Whether some first fields that can be encoded have more bytes than there is room for. -/
def Overruns (mode : PackMode) (room : Nat) (specs : List FieldSpec) : Prop :=
  ∃ before rest data, specs = before ++ rest ∧ b.encodeFields mode before = .ok data ∧
    room < data.length

end

variable [Codecs] {b : RecordBuilder} {mode : PackMode} {room : Nat} {spec : FieldSpec}
  {later : List FieldSpec}

/-! ## Room -/

theorem not_overruns_nil : ¬b.Overruns mode room [] := by
  rintro ⟨before, rest, data, hsplit, hdata, hroom⟩
  obtain ⟨rfl, -⟩ := List.append_eq_nil_iff.1 hsplit.symm
  cases hdata
  exact Nat.not_lt_zero _ hroom

/-- A pack that ends at a gap has written nothing that could overrun. -/
theorem not_overruns_of_gap (hgap : b.value? spec.name = none) :
    ¬b.Overruns mode room (spec :: later) := by
  rintro ⟨before, rest, data, hsplit, hdata, hroom⟩
  cases before with
  | nil =>
    cases hdata
    exact Nat.not_lt_zero _ hroom
  | cons spec' before =>
    obtain rfl := (List.cons.inj hsplit).1
    rw [encodeFields, hgap] at hdata
    cases hdata
    exact Nat.not_lt_zero _ hroom

/-- There is no room for some first fields if there is none for the first, or, behind it, for some
fields after it. -/
theorem overruns_cons_iff {v : FieldValue} (hv : b.value? spec.name = some v) :
    b.Overruns mode room (spec :: later) ↔ ∃ head, b.encodeField mode spec v = .ok head ∧
      (room < head.length ∨ b.Overruns mode (room - head.length) later) := by
  constructor
  · rintro ⟨before, rest, data, hsplit, hdata, hroom⟩
    cases before with
    | nil =>
      cases hdata
      exact absurd hroom (Nat.not_lt_zero _)
    | cons spec' before =>
      obtain ⟨rfl, rfl⟩ := List.cons.inj hsplit
      obtain ⟨head, tail, hhead, htail, rfl⟩ := (encodeFields_cons_eq_ok_iff hv).1 hdata
      rw [List.length_append] at hroom
      refine ⟨head, hhead, Nat.lt_or_ge room head.length |>.imp_right fun hle => ?_⟩
      exact ⟨before, rest, tail, rfl, htail, by omega⟩
  · rintro ⟨head, hhead, hroom | ⟨before, rest, tail, rfl, htail, hroom⟩⟩
    · refine ⟨[spec], later, head ++ [], rfl, ?_, by rwa [List.append_nil]⟩
      exact (encodeFields_cons_eq_ok_iff hv).2 ⟨head, [], hhead, rfl, rfl⟩
    · refine ⟨spec :: before, rest, head ++ tail, rfl, ?_, ?_⟩
      · exact (encodeFields_cons_eq_ok_iff hv).2 ⟨head, tail, hhead, htail, rfl⟩
      · rw [List.length_append]
        omega

/-! ## Bounds -/

omit [Codecs] in
/-- A rule adds a terminator or a count, which take two bytes at most, or it fills a width. -/
theorem length_le_of_applyRule {raw data : Bytes} (h : b.applyRule mode spec raw = .ok data) :
    data.length ≤ spec.fixedWidth + raw.length + 2 := by
  rw [← bytes_part_of_applyRule h, Part.length_bytes, FieldSpec.part, FieldSpec.fixedWidth]
  cases spec.rule with
  | fixed width =>
    simp only [List.length_nil, List.length_append, List.length_replicate]
    omega
  | nullTerminated =>
    have helement : spec.type.elementWidth ≤ 2 := by cases spec.type <;> simp [FieldType.elementWidth]
    simp only [List.length_nil, FieldType.length_zeros]
    omega
  | lengthField reference | remainder =>
    simp only [List.length_nil]
    omega
  | counted =>
    simp only [List.length_nil, Bytes.length_ofNatLE]
    omega

/-- A field has no more bytes than its width, its value and a terminator or count. -/
theorem length_le_of_encodeField {v : FieldValue} {data : Bytes}
    (h : b.encodeField mode spec v = .ok data) :
    data.length ≤ spec.fixedWidth + v.encodedLength b.codec + 2 := by
  obtain ⟨raw, hraw, -, hfits⟩ := encodeField_eq_ok_iff.1 h
  have hlength : v.encodedLength b.codec = raw.length := by rw [FieldValue.encodedLength, hraw]
  rw [hlength]
  exact length_le_of_applyRule hfits

/-- The fields have no more bytes than their widths, their values and two for each. -/
theorem length_le_of_encodeFields {specs : List FieldSpec} {data : Bytes}
    (h : b.encodeFields mode specs = .ok data) :
    data.length ≤ (specs.map FieldSpec.fixedWidth).sum +
      ((specs.map FieldSpec.name).map b.heldLength).sum + 2 * specs.length := by
  induction specs generalizing data with
  | nil =>
    cases h
    exact Nat.zero_le _
  | cons spec later ih =>
    cases hv : b.value? spec.name with
    | none =>
      rw [encodeFields, hv] at h
      cases h
      exact Nat.zero_le _
    | some v =>
      obtain ⟨head, tail, hhead, htail, rfl⟩ := (encodeFields_cons_eq_ok_iff hv).1 h
      have hheld : b.heldLength spec.name = v.encodedLength b.codec := by rw [heldLength, hv]; rfl
      have hfirst := length_le_of_encodeField hhead
      have hrest := ih htail
      simp only [List.length_append, List.map_cons, List.sum_cons, List.length_cons, hheld]
      omega

omit [Codecs] in
/-- Under different names, one value counts once at most. -/
theorem sum_map_ite_le {names : List String} (hdistinct : names.Nodup) (name : String) (n : Nat)
    (f : String → Nat) :
    (names.map fun x => if name = x then n else f x).sum ≤ n + (names.map f).sum := by
  induction names with
  | nil => exact Nat.zero_le _
  | cons x names ih =>
    obtain ⟨hx, hnames⟩ := List.nodup_cons.1 hdistinct
    rw [List.map_cons, List.map_cons, List.sum_cons, List.sum_cons]
    by_cases hname : name = x
    · have hothers : (names.map fun y => if name = y then n else f y) = names.map f :=
        List.map_congr_left fun y hy => if_neg fun h => hx (hname.symm.trans h ▸ hy)
      rw [if_pos hname, hothers]
      omega
    · rw [if_neg hname]
      have hrest := ih hnames
      omega

/-- Under different names there are not more bytes than the values have together. -/
theorem sum_heldLength_le {names : List String} (hdistinct : names.Nodup) :
    (names.map b.heldLength).sum ≤ b.suppliedLength := by
  -- by induction on the additions, since the names of a layout may be in another order than theirs
  have hsum : ∀ additions : List Addition,
      (names.map { b with additions }.heldLength).sum ≤
        (additions.map fun a => a.value.encodedLength b.codec).sum := by
    intro additions
    induction additions with
    | nil =>
      have hzero : { b with additions := [] }.heldLength = fun _ => 0 := rfl
      simp [hzero]
    | cons a additions ih =>
      have hfirst : { b with additions := a :: additions }.heldLength = fun name =>
          if a.name = name then a.value.encodedLength b.codec
          else { b with additions }.heldLength name := by
        funext name
        by_cases hname : a.name = name <;> simp [heldLength, value?, hname]
      rw [hfirst, List.map_cons, List.sum_cons]
      exact (sum_map_ite_le hdistinct _ _ _).trans (Nat.add_le_add_left ih _)
  exact hsum b.additions

end RecordBuilder

namespace Machine

/-! ## Vectors -/

theorem extend_eq_some {out more : Bytes} (h : out.length + more.length ≤ capacity) :
    extend out more = some (out ++ more) := by
  rw [extend, reserve, if_pos h]
  rfl

theorem extend_eq_none {out more : Bytes} (h : capacity < out.length + more.length) :
    extend out more = none := by
  rw [extend, reserve, if_neg (Nat.not_le.2 h)]
  rfl

/-- Appending twice is appending once, up to the limit. -/
theorem extend_extend (out front back : Bytes) :
    (extend out front).bind (extend · back) = extend out (front ++ back) := by
  by_cases hfront : out.length + front.length ≤ capacity
  · rw [extend_eq_some hfront, Option.bind_some]
    by_cases hall : out.length + (front ++ back).length ≤ capacity
    · rw [extend_eq_some hall, extend_eq_some, List.append_assoc]
      simpa [Nat.add_assoc] using hall
    · rw [extend_eq_none (Nat.not_le.1 hall), extend_eq_none]
      simpa [Nat.add_assoc] using hall
  · rw [extend_eq_none (Nat.not_le.1 hfront), extend_eq_none, Option.bind_none]
    rw [List.length_append]
    omega

/-- Zeros are put behind bytes as other bytes are: no word is too short for a length that a vector
holds. -/
theorem fill_eq (out : Bytes) (count : Nat) : fill out count = extend out (List.replicate count 0) := by
  have hword : capacity < lengthBound := by decide
  by_cases hroom : out.length + count ≤ capacity
  · rw [extend_eq_some (by rwa [List.length_replicate]), fill, add_eq_some (by omega)]
    show resize out (out.length + count) = _
    rw [resize, reserve, Nat.add_sub_cancel_left, if_pos hroom, List.take_of_length_le (by omega)]
    rfl
  · rw [extend_eq_none (by rw [List.length_replicate]; omega), fill, add]
    split
    · show resize out (out.length + count) = _
      rw [resize, reserve, Nat.add_sub_cancel_left, if_neg hroom]
      rfl
    · rfl

/-- Puts the bytes of an answer behind some; an error is an answer as it is. -/
def put {ε : Type} (out : Bytes) : Except ε Bytes → Option (Except ε Bytes)
  | .ok data => (extend out data).map .ok
  | .error e => some (.error e)

theorem put_ok {ε : Type} (out data : Bytes) :
    put out (.ok data : Except ε Bytes) = extend out data >>= fun next => pure (.ok next) := by
  rw [put]
  cases extend out data <;> rfl

theorem put_append {ε : Type} (out front back : Bytes) :
    put out (.ok (front ++ back) : Except ε Bytes) =
      extend out front >>= fun next => put next (.ok back) := by
  rw [put_ok, ← extend_extend]
  cases extend out front with
  | none => rfl
  | some next => exact (put_ok next back).symm

/-! ## Fields -/

section

variable [Codecs] {b : RecordBuilder} {mode : PackMode}

omit [Codecs] in
/-- A rule appends in place what it gives as a value, or stops where there is no room. -/
theorem applyRule_eq (spec : FieldSpec) (out raw : Bytes) :
    applyRule b mode spec out raw = put out (b.applyRule mode spec raw) := by
  rw [applyRule, RecordBuilder.applyRule]
  cases spec.rule with
  | fixed width =>
    dsimp only
    by_cases hle : raw.length ≤ width
    · rw [if_neg (Nat.not_lt.2 hle), if_pos hle, put_append, sub_eq_some hle]
      simp only [put_ok, fill_eq, Option.bind_eq_bind, Option.bind_some]
    · rw [if_pos (Nat.not_le.1 hle), if_neg hle, put]
  | nullTerminated =>
    dsimp only
    rw [put_append]
    simp only [put_ok, fill_eq]
  | lengthField reference =>
    dsimp only
    by_cases hheld : mode = .incomplete ∨ (b.value? reference).bind FieldValue.integer? =
        some (Int.ofNat (raw.length / spec.type.elementWidth))
    · have hnone : ¬(mode = .complete ∧ (b.value? reference).bind FieldValue.integer? ≠
          some (Int.ofNat (raw.length / spec.type.elementWidth))) := by
        rintro ⟨rfl, hne⟩
        exact hheld.elim PackMode.noConfusion hne
      rw [if_neg hnone, if_pos hheld, put_ok]
    · obtain ⟨hmode, hne⟩ := not_or.1 hheld
      have hcomplete : mode = .complete := by cases mode <;> trivial
      rw [if_pos ⟨hcomplete, hne⟩, if_neg hheld, put]
  | remainder => exact (put_ok out raw).symm
  | counted =>
    dsimp only
    split
    · rw [put_append]
      simp only [put_ok]
    · rw [put]

/-- A field appends in place what it gives as a value, or stops where there is no room. -/
theorem encodeField_eq (out : Bytes) (spec : FieldSpec) (v : FieldValue) :
    encodeField b mode out spec v = put out (b.encodeField mode spec v) := by
  rw [encodeField, RecordBuilder.encodeField]
  cases RecordBuilder.encodeValue b.codec spec.name v with
  | error e => rfl
  | ok raw =>
    dsimp only
    split
    · rfl
    · rw [applyRule_eq]
      cases b.applyRule mode spec raw with
      | error cause => rfl
      | ok data =>
        dsimp only
        rw [put, put]
        cases extend out data <;> rfl

/-- What is put behind some bytes is what the fields are encoded as. -/
theorem encodeFields_eq_some {out : Bytes} {specs : List FieldSpec}
    {reply : Except BuildError Bytes} (h : encodeFields b mode out specs = some reply) :
    reply = (b.encodeFields mode specs).map (out ++ ·) := by
  induction specs generalizing out with
  | nil =>
    cases h
    rw [RecordBuilder.encodeFields, Except.map, List.append_nil]
  | cons spec later ih =>
    rw [encodeFields] at h
    rw [RecordBuilder.encodeFields]
    cases hv : b.value? spec.name with
    | none =>
      simp only [hv, Option.some.injEq] at h
      rw [← h, Except.map, List.append_nil]
    | some v =>
      simp only [hv, encodeField_eq] at h ⊢
      cases hhead : b.encodeField mode spec v with
      | error e =>
        rw [hhead] at h
        cases h
        rfl
      | ok head =>
        by_cases hroom : out.length + head.length ≤ capacity
        · simp only [hhead, put, extend_eq_some hroom] at h
          rw [ih h]
          cases b.encodeFields mode later with
          | error e => rfl
          | ok tail => simp [Except.map]
        · simp only [hhead, put, extend_eq_none (Nat.not_le.1 hroom)] at h
          cases h

/-- Fields stop the machine exactly if some first ones have more bytes than there is room for. -/
theorem encodeFields_eq_none_iff {out : Bytes} (hout : out.length ≤ capacity)
    {specs : List FieldSpec} :
    encodeFields b mode out specs = none ↔ b.Overruns mode (capacity - out.length) specs := by
  induction specs generalizing out with
  | nil => exact ⟨nofun, fun h => absurd h RecordBuilder.not_overruns_nil⟩
  | cons spec later ih =>
    rw [encodeFields]
    cases hv : b.value? spec.name with
    | none => exact ⟨nofun, fun h => absurd h (RecordBuilder.not_overruns_of_gap hv)⟩
    | some v =>
      rw [RecordBuilder.overruns_cons_iff hv]
      simp only [encodeField_eq]
      cases hhead : b.encodeField mode spec v with
      | error e => exact ⟨nofun, fun ⟨_, h, _⟩ => nomatch h⟩
      | ok head =>
        -- what the first field takes is not there for the others any more
        by_cases hroom : out.length + head.length ≤ capacity
        · have hnext : encodeFields b mode (out ++ head) later = none ↔
              b.Overruns mode (capacity - out.length - head.length) later := by
            rw [Nat.sub_sub, ← List.length_append]
            exact ih (by rwa [List.length_append])
          simp only [put, extend_eq_some hroom]
          refine hnext.trans ⟨fun h => ⟨head, rfl, .inr h⟩, ?_⟩
          rintro ⟨_, ⟨⟩, hover | h⟩
          · omega
          · exact h
        · simp only [put, extend_eq_none (Nat.not_le.1 hroom)]
          exact ⟨fun _ => ⟨head, rfl, .inl (by omega)⟩, fun _ => rfl⟩

theorem encodeFields_start_eq_none_iff {specs : List FieldSpec} :
    encodeFields b mode [] specs = none ↔ b.Overruns mode capacity specs :=
  encodeFields_eq_none_iff (Nat.zero_le _)

/-! ## Records -/

omit [Codecs] in
/-- A record is assembled where its data and its stack have room. -/
theorem recordOf_eq_some {data : Bytes} (h : data.length + b.stackLength ≤ capacity) :
    recordOf b data = some (b.recordOf data) := by
  rw [recordOf, RecordBuilder.recordOf]
  cases hstack : b.stack with
  | none => rfl
  | some addresses =>
    have hroom : data.length + Record.addressWidth * addresses.length ≤ capacity := by
      simpa [RecordBuilder.stackLength, hstack] using h
    have hbody : extend data (Record.addressBytes addresses) =
        some (data ++ Record.addressBytes addresses) :=
      extend_eq_some (by rwa [Record.length_addressBytes])
    simp [reserve, hroom, hbody]

omit [Codecs] in
/-- A stack behind data that fills the room stops the machine. -/
theorem recordOf_eq_none {data : Bytes} (hdata : data.length ≤ capacity)
    (h : capacity < data.length + b.stackLength) : recordOf b data = none := by
  rw [recordOf]
  cases hstack : b.stack with
  | none =>
    simp only [RecordBuilder.stackLength, hstack, Option.getD_none, List.length_nil] at h
    omega
  | some addresses =>
    have hroom : ¬data.length + Record.addressWidth * addresses.length ≤ capacity := by
      simpa [RecordBuilder.stackLength, hstack] using h
    simp [reserve, hroom]

/-- Whether some first fields of a layout, or all of them with the stack, come to more bytes than a
vector holds. -/
def Overfills (b : RecordBuilder) (mode : PackMode) (layout : Layout) : Prop :=
  b.Overruns mode capacity layout.fields ∨
    ∃ data, b.encodeFields mode layout.fields = .ok data ∧ capacity < data.length + b.stackLength

variable {layout : Layout}

/-- Assembling stops where the fields of the layout overfill a record. -/
theorem assemble_eq_none (hlayout : b.layout = .ok layout) (h : Overfills b mode layout) :
    assemble b mode = none := by
  simp only [assemble, hlayout]
  cases hfields : encodeFields b mode [] layout.fields with
  | none => rfl
  | some reply =>
    have hover : ¬b.Overruns mode capacity layout.fields := fun h => by
      simp [encodeFields_start_eq_none_iff.2 h] at hfields
    obtain ⟨data, hdata, hstack⟩ := h.resolve_left hover
    have hroom : data.length ≤ capacity := by
      by_contra hlt
      exact hover ⟨layout.fields, [], data, (List.append_nil _).symm, hdata, Nat.not_le.1 hlt⟩
    rw [encodeFields_eq_some hfields, hdata]
    simp [Except.map, recordOf_eq_none hroom hstack]

/-- Where they do not overfill it, the record is the builder's. -/
theorem assemble_eq_some (hlayout : b.layout = .ok layout) (h : ¬Overfills b mode layout) :
    assemble b mode = some (b.assemble mode) := by
  obtain ⟨hover, hstack⟩ := not_or.1 h
  obtain ⟨reply, hfields⟩ := Option.ne_none_iff_exists'.1 (mt encodeFields_start_eq_none_iff.1 hover)
  simp only [assemble, RecordBuilder.assemble, hlayout, hfields]
  rw [encodeFields_eq_some hfields]
  cases hdata : b.encodeFields mode layout.fields with
  | error e => rfl
  | ok data =>
    have hroom : data.length + b.stackLength ≤ capacity := by
      by_contra hlt
      exact hstack ⟨data, hdata, Nat.not_le.1 hlt⟩
    simp [Except.map, recordOf_eq_some hroom]

/-- Small values under fields that are not too wide together fit into a vector. -/
theorem not_overfills (hvalues : b.suppliedLength < wordCount 32)
    (hwidths : (layout.fields.map FieldSpec.fixedWidth).sum + 2 * layout.fields.length +
      b.stackLength + wordCount 32 ≤ wordCount 63) : ¬Overfills b mode layout := by
  have hbound : ∀ before rest data, layout.fields = before ++ rest →
      b.encodeFields mode before = .ok data → data.length + b.stackLength ≤ capacity := by
    intro before rest data hsplit hdata
    have hdistinct := layout.wellFormed.distinct
    rw [hsplit, List.map_append] at hdistinct
    have hheld := b.sum_heldLength_le (List.nodup_append.1 hdistinct).1
    have hlength := RecordBuilder.length_le_of_encodeFields hdata
    rw [hsplit, List.map_append, List.sum_append, List.length_append] at hwidths
    rw [capacity]
    omega
  rintro (⟨before, rest, data, hsplit, hdata, hroom⟩ | ⟨data, hdata, hroom⟩)
  · have hfits := hbound before rest data hsplit hdata
    omega
  · have hfits := hbound layout.fields [] data (List.append_nil _).symm hdata
    omega

/-! ## Packing -/

theorem pack_eq_assemble (hopen : b.finalized = false) (hmissing : mode = .complete → b.missing = []) :
    pack b mode = assemble b mode ∧ b.pack mode = b.assemble mode := by
  have hall : ¬(mode = .complete ∧ b.missing ≠ []) := fun h => h.2 (hmissing h.1)
  simp [pack, RecordBuilder.pack, hopen, if_neg hall]

/-- Whether a builder gets to encoding fields that no vector holds. -/
def Stops (b : RecordBuilder) (mode : PackMode) : Prop :=
  b.finalized = false ∧ (mode = .complete → b.missing = []) ∧
    ∃ layout, b.layout = .ok layout ∧ Overfills b mode layout

theorem pack_eq_none (h : Stops b mode) : pack b mode = none := by
  obtain ⟨hopen, hmissing, layout, hlayout, hover⟩ := h
  rw [(pack_eq_assemble hopen hmissing).1, assemble_eq_none hlayout hover]

/-- A machine that does not stop packs what the builder packs. -/
theorem pack_eq_some (h : ¬Stops b mode) : pack b mode = some (b.pack mode) := by
  by_cases hopen : b.finalized = true
  · rw [pack, RecordBuilder.pack, if_pos hopen, if_pos hopen]
  · by_cases hmissing : mode = .complete ∧ b.missing ≠ []
    · rw [pack, RecordBuilder.pack, if_neg hopen, if_neg hopen, if_pos hmissing, if_pos hmissing]
    · have hopen' : b.finalized = false := Bool.eq_false_iff.2 hopen
      have hmissing' : mode = .complete → b.missing = [] := by simpa using hmissing
      obtain ⟨hpack, hspec⟩ := pack_eq_assemble hopen' hmissing'
      rw [hpack, hspec]
      cases hlayout : b.layout with
      | error e => rw [assemble, RecordBuilder.assemble, hlayout]
      | ok layout =>
        exact assemble_eq_some hlayout fun hover => h ⟨hopen', hmissing', layout, hlayout, hover⟩

theorem pack_eq_none_iff : pack b mode = none ↔ Stops b mode := by
  refine ⟨fun hnone => ?_, pack_eq_none⟩
  by_contra hgoes
  simp [pack_eq_some hgoes] at hnone

theorem eq_pack_of_pack_eq_some {reply : Except BuildError PackedRecord}
    (h : pack b mode = some reply) : reply = b.pack mode := by
  have hgoes : ¬Stops b mode := fun hstops => by simp [pack_eq_none hstops] at h
  exact Option.some.inj (h.symm.trans (pack_eq_some hgoes))

/-- A machine that goes on answers what the builder answers. It stops exactly if the builder gets to
encoding and some first fields, or all of them with the stack, come to more bytes than a vector holds.
While the values have fewer than `2 ^ 32` bytes together, only the widths of the fields, their number and
the stack can bring that about. -/
theorem pack_refines (b : RecordBuilder) (mode : PackMode) :
    (∀ reply, pack b mode = some reply → reply = b.pack mode) ∧
    (pack b mode = none ↔ b.finalized = false ∧ (mode = .complete → b.missing = []) ∧
      ∃ layout, b.layout = .ok layout ∧ Overfills b mode layout) ∧
    ∀ layout, b.layout = .ok layout → b.suppliedLength < wordCount 32 →
      (layout.fields.map FieldSpec.fixedWidth).sum + 2 * layout.fields.length + b.stackLength +
        wordCount 32 ≤ wordCount 63 →
      pack b mode = some (b.pack mode) := by
  refine ⟨fun reply => eq_pack_of_pack_eq_some, pack_eq_none_iff, fun layout hlayout hvalues hwidths =>
    pack_eq_some fun ⟨_, _, layout', hlayout', hover⟩ => ?_⟩
  obtain rfl := Except.ok.inj (hlayout.symm.trans hlayout')
  exact not_overfills hvalues hwidths hover

end

/-- A builder with one byte for a field that is as wide as no vector. -/
def vast : RecordBuilder :=
  ((RecordBuilder.forLayout .nil
    ⟨⟨1, 0⟩, none, [⟨"Blob", .rawBytes, .fixed (wordCount 63)⟩], rfl⟩).run
      [.add (.bytes "Blob" [1])]).1

theorem pack_stops_vast : vast.missing = [] ∧ vast.suppliedLength = 1 ∧
    pack vast .complete = none ∧ pack vast .incomplete = none := by
  refine ⟨rfl, rfl, ?_, ?_⟩ <;> decide

end Machine

end EventTrace
