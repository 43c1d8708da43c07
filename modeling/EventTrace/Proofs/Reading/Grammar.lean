import EventTrace.Proofs.Terminator

/-!
# The grammar of user data

What a layout says about the bytes of a record, without a cursor: the data is one part for each field,
one behind the other, and a rest. A part is the value of a field between what stands before it (a
count) and what stands behind it (a terminator, or bytes that do not fill an element), and each length
rule says which parts it allows, given the parts before and the bytes behind (`Part.Conforms`).

How a walk through the data relates to this is the subject of `EventTrace.Proofs.Reading.Walk`; here
are the laws of the grammar itself.
-/

namespace EventTrace

/-- The bytes of a field: those before its value, the value, and those behind it. -/
structure Part where
  spec : FieldSpec
  lead : Bytes
  value : Bytes
  tail : Bytes

namespace Part

def bytes (p : Part) : Bytes := p.lead ++ (p.value ++ p.tail)

def integer? (p : Part) : Option Int :=
  match p.spec.type with
  | .scalar t => (Scalar.ofBytes? t p.value).bind fun s => (FieldValue.scalar s).integer?
  | _ => none

/-- Whether a part's value is whole elements, and all of those. -/
def IsWhole (p : Part) : Prop :=
  p.spec.type.elementWidth ∣ p.value.length ∧ p.tail.length < p.spec.type.elementWidth

/-- Whether a value of whole characters, none of them NUL, stands before one that is. -/
def IsTerminated (p : Part) : Prop :=
  p.spec.type.elementWidth ∣ p.value.length ∧ p.spec.type.NulFree p.value ∧
    p.tail = p.spec.type.zeros

/-- Whether a part takes all that is left, which is something without a NUL character. -/
def IsUnterminated (rest : Bytes) (p : Part) : Prop :=
  p.IsWhole ∧ p.value ++ p.tail ≠ [] ∧ p.spec.type.NulFree (p.value ++ p.tail) ∧ rest = []

/-- Whether one of some parts has a name and spells an integer. -/
def Holds (parts : List Part) (name : String) (n : Int) : Prop :=
  ∃ q ∈ parts, q.spec.name = name ∧ q.integer? = some n

/-- Whether a part is what its length rule says, behind earlier parts and before the rest of the data.
A missing terminator is tolerated only where that is not strict. -/
def Conforms (strict : Bool) (earlier : List Part) (rest : Bytes) (p : Part) : Prop :=
  match p.spec.rule with
  | .fixed width => p.lead = [] ∧ p.value.length = width ∧ p.tail = []
  | .nullTerminated =>
    p.lead = [] ∧ (p.IsTerminated ∨ strict = false ∧ p.IsUnterminated rest)
  | .lengthField reference =>
    p.lead = [] ∧ p.tail = [] ∧ ∃ count, Holds earlier reference count ∧ 0 ≤ count ∧
      count.toNat * p.spec.type.elementWidth < lengthBound ∧
      p.value.length = count.toNat * p.spec.type.elementWidth
  | .remainder => p.lead = [] ∧ p.IsWhole ∧ rest = []
  | .counted =>
    p.lead = Bytes.ofNatLE 2 (p.value ++ p.tail).length ∧
      (p.value ++ p.tail).length < wordCount 16 ∧ p.IsWhole

theorem length_bytes (p : Part) :
    p.bytes.length = p.lead.length + (p.value.length + p.tail.length) := by
  simp only [bytes, List.length_append]

/-- The segment of a part that begins at an offset. -/
def segmentAt (p : Part) (offset : Nat) : Segment :=
  ⟨offset, p.bytes.length, offset + p.lead.length, offset + p.lead.length + p.value.length⟩

@[simp] theorem offset_segmentAt (p : Part) (offset : Nat) : (p.segmentAt offset).offset = offset := rfl

@[simp] theorem stop_segmentAt (p : Part) (offset : Nat) :
    (p.segmentAt offset).stop = offset + p.bytes.length := rfl

/-- The value of a part is what its segment shows of the data. -/
theorem value_segmentAt {data front rest : Bytes} {p : Part} (h : data = front ++ (p.bytes ++ rest)) :
    (p.segmentAt front.length).value data = p.value := by
  subst h
  rw [Segment.value, segmentAt, Nat.add_sub_cancel_left, ← List.drop_drop, List.drop_left,
    bytes, List.append_assoc, List.drop_left, List.append_assoc, List.take_left]

/-- A part is settled by where its bytes begin, what its segment is, and its declaration. -/
theorem eq_of_segmentAt_eq {p q : Part} {rest rest' : Bytes} {offset : Nat}
    (hspec : p.spec = q.spec) (hbytes : p.bytes ++ rest = q.bytes ++ rest')
    (hsegment : p.segmentAt offset = q.segmentAt offset) : p = q ∧ rest = rest' := by
  simp only [segmentAt, Segment.mk.injEq, length_bytes, true_and] at hsegment
  obtain ⟨hlen, hlead, hvalue⟩ := hsegment
  have hlead : p.lead.length = q.lead.length := by omega
  have hvalue : p.value.length = q.value.length := by omega
  have htail : p.tail.length = q.tail.length := by omega
  simp only [bytes, List.append_assoc] at hbytes
  obtain ⟨h₁, hbytes⟩ := List.append_inj hbytes hlead
  obtain ⟨h₂, hbytes⟩ := List.append_inj hbytes hvalue
  obtain ⟨h₃, hrest⟩ := List.append_inj hbytes htail
  cases p
  cases q
  simp_all

end Part

/-! ## Decompositions -/

def bytesOf (parts : List Part) : Bytes := parts.flatMap Part.bytes

@[simp] theorem bytesOf_nil : bytesOf [] = [] := rfl

@[simp] theorem bytesOf_cons (p : Part) (parts : List Part) :
    bytesOf (p :: parts) = p.bytes ++ bytesOf parts := rfl

@[simp] theorem bytesOf_append (parts parts' : List Part) :
    bytesOf (parts ++ parts') = bytesOf parts ++ bytesOf parts' := List.flatMap_append

/-- Whether some data is parts, one behind the other, and a rest, where each part is what its length
rule says behind the parts before it. -/
structure Decomposes (strict : Bool) (data : Bytes) (parts : List Part) (rest : Bytes) : Prop where
  eq : data = bytesOf parts ++ rest
  conforms : ∀ before p after, parts = before ++ p :: after →
    p.Conforms strict before (bytesOf after ++ rest)

namespace Decomposes

variable {strict : Bool} {data : Bytes} {parts : List Part} {rest : Bytes} {p : Part}

theorem nil (strict : Bool) (data : Bytes) : Decomposes strict data [] data where
  eq := rfl
  conforms := by simp

/-- The bytes of a part stand between those of the parts before and behind it. -/
theorem split_eq {before after : List Part} (h : Decomposes strict data (before ++ p :: after) rest) :
    data = bytesOf before ++ (p.bytes ++ (bytesOf after ++ rest)) := by
  rw [h.eq, bytesOf_append, bytesOf_cons, List.append_assoc, List.append_assoc]

/-- A decomposition goes on by one more part of the rest. -/
theorem append_singleton_iff :
    Decomposes strict data (parts ++ [p]) rest ↔
      Decomposes strict data parts (p.bytes ++ rest) ∧ p.Conforms strict parts rest := by
  constructor
  · intro h
    refine ⟨⟨by simpa using h.eq, fun before q after heq => ?_⟩, h.conforms parts p [] rfl⟩
    simpa using h.conforms before q (after ++ [p]) (by simp [heq])
  · rintro ⟨h, hp⟩
    refine ⟨by simpa using h.eq, fun before q after heq => ?_⟩
    rcases List.eq_nil_or_concat after with rfl | ⟨after, q', rfl⟩
    · obtain ⟨rfl, hq⟩ := List.append_inj' heq rfl
      cases hq
      exact hp
    · rw [List.concat_eq_append, ← List.cons_append, ← List.append_assoc] at heq
      obtain ⟨hparts, hq⟩ := List.append_inj' heq rfl
      cases hq
      simpa using h.conforms before q after hparts

/-- The first parts of a decomposition are one, too. -/
theorem of_append {parts' : List Part} (h : Decomposes strict data (parts ++ parts') rest) :
    Decomposes strict data parts (bytesOf parts' ++ rest) where
  eq := by simpa using h.eq
  conforms before q after heq := by
    simpa using h.conforms before q (after ++ parts') (by simp [heq])

theorem length_eq (h : Decomposes strict data parts rest) :
    data.length = (bytesOf parts).length + rest.length := by
  rw [h.eq, List.length_append]

end Decomposes

end EventTrace
