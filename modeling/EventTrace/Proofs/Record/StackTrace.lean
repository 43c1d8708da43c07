import EventTrace.Proofs.Bytes
import EventTrace.Record.StackTrace

/-!
# Stacks are gone through exactly

The words of a stack region are its return addresses, and with the bytes behind the last whole word
they are all of it (`Record.addressBytes_stack`). A trace has those addresses, so each draw takes one
off the end that it is from, and however the two ends are mixed, what was drawn from the innermost,
what is left, and what was drawn from the outermost are the addresses in their order
(`StackTrace.yields`).
-/

namespace EventTrace

/-! ## The words of a region -/

namespace Record

/-- The address that an entry is. -/
def addressOf (entry : Bytes) : UInt64 := UInt64.ofNat entry.toNatLE

theorem ofNatLE_addressOf {entry : Bytes} (h : entry.length = addressWidth) :
    Bytes.ofNatLE addressWidth (addressOf entry).toNat = entry := by
  have hlt := Bytes.toNatLE_lt entry
  rw [h] at hlt
  rw [addressOf, UInt64.toNat_ofNat_of_lt' hlt, ← h, Bytes.ofNatLE_toNatLE]

theorem addressOf_ofNatLE (a : UInt64) : addressOf (Bytes.ofNatLE addressWidth a.toNat) = a := by
  have hlt : a.toNat < wordCount (8 * addressWidth) := a.toNat_lt
  rw [addressOf, Bytes.toNatLE_ofNatLE, Nat.mod_eq_of_lt hlt, UInt64.ofNat_toNat]

def addressesIn (region : Bytes) : List UInt64 := (region.pieces addressWidth).map addressOf

theorem stack_eq (r : Record) : r.stack = addressesIn (r.stackRegion?.getD []) := rfl

theorem length_addressesIn (region : Bytes) :
    (addressesIn region).length = region.length / addressWidth := by
  rw [addressesIn, List.length_map, Bytes.length_pieces]

theorem addressesIn_append {a b : Bytes} (h : addressWidth ∣ a.length) :
    addressesIn (a ++ b) = addressesIn a ++ addressesIn b := by
  rw [addressesIn, Bytes.pieces_append (by decide) h, List.map_append]
  rfl

theorem addressesIn_entry {entry : Bytes} (h : entry.length = addressWidth) :
    addressesIn entry = [addressOf entry] := by
  rw [addressesIn, Bytes.pieces_of_length (by decide) h, List.map_singleton]

/-- Bytes that do not fill an address are none. -/
theorem addressesIn_of_lt {region : Bytes} (h : region.length < addressWidth) :
    addressesIn region = [] := by
  rw [← List.length_eq_zero_iff, length_addressesIn, Nat.div_eq_of_lt h]

/-- Addresses are found where they were put. -/
theorem addressesIn_addressBytes (addresses : List UInt64) :
    addressesIn (addressBytes addresses) = addresses := by
  induction addresses with
  | nil => rfl
  | cons a addresses ih =>
    have hentry : (Bytes.ofNatLE addressWidth a.toNat).length = addressWidth :=
      Bytes.length_ofNatLE _ _
    rw [addressBytes, List.flatMap_cons, ← addressBytes,
      addressesIn_append (hentry ▸ Nat.dvd_refl _), addressesIn_entry hentry, addressOf_ofNatLE, ih]
    rfl

/-- The addresses of a region are its bytes up to the last whole word. -/
theorem addressBytes_addressesIn (region : Bytes) :
    addressBytes (addressesIn region) =
      region.take (addressWidth * (region.length / addressWidth)) := by
  rw [← Bytes.flatten_pieces, addressBytes, addressesIn, List.flatMap_map, List.flatMap_def]
  congr 1
  refine (List.map_congr_left fun entry hentry => ?_).trans (List.map_id _)
  exact ofNatLE_addressOf (Bytes.length_of_mem_pieces hentry)

end Record

namespace StackTrace

open Record (addressWidth addressOf addressesIn)

variable (t : StackTrace) {side : StackEnd} {entry : Bytes}

def addresses : List UInt64 := addressesIn t.entries

theorem length_addresses : t.addresses.length = t.length := Record.length_addressesIn _

/-! ## Starting -/

theorem length_remainder_ofRegion (region : Bytes) :
    (ofRegion region).remainder.length = region.length % addressWidth := by
  have hle := Nat.mod_le region.length addressWidth
  rw [ofRegion, List.length_drop]
  omega

/-- The addresses of a region do not include the bytes that are set aside. -/
theorem addresses_ofRegion (region : Bytes) : (ofRegion region).addresses = addressesIn region := by
  have hrest : (ofRegion region).remainder.length < addressWidth := by
    rw [length_remainder_ofRegion]
    exact Nat.mod_lt _ (by decide)
  have hsplit : (ofRegion region).entries ++ (ofRegion region).remainder = region :=
    List.take_append_drop _ _
  conv => rhs; rw [← hsplit]
  rw [Record.addressesIn_append (ofRegion region).whole, Record.addressesIn_of_lt hrest,
    List.append_nil]
  rfl

theorem addresses_ofRecord (r : Record) : (ofRecord r).addresses = r.stack := addresses_ofRegion _

/-! ## One draw -/

theorem address?_eq (h : entry.length = addressWidth) : address? entry = some (addressOf entry) := by
  have hslice : entry.slice? 0 addressWidth = some entry :=
    Bytes.slice?_eq_some_iff.2 ⟨by omega, by rw [List.drop_zero, ← h, List.take_length]⟩
  rw [address?, hslice]
  rfl

variable {t} in
theorem length_take_entries (h : addressWidth ≤ t.entries.length) :
    (t.entries.take addressWidth).length = addressWidth := by
  rw [List.length_take, Nat.min_eq_left h]

variable {t} in
theorem length_drop_entries (h : addressWidth ≤ t.entries.length) :
    (t.entries.drop (t.entries.length - addressWidth)).length = addressWidth := by
  rw [List.length_drop]
  omega

/-- An address from the innermost end is the first, and the others are left. -/
theorem addresses_next : t.addresses = t.next.1.toList ++ t.next.2.addresses := by
  rw [next]
  split
  · rename_i hle
    have hentry := length_take_entries hle
    have hdvd : addressWidth ∣ (t.entries.take addressWidth).length :=
      ⟨1, by rw [hentry, Nat.mul_one]⟩
    rw [address?_eq hentry, Option.toList_some, ← Record.addressesIn_entry hentry, addresses,
      addresses, ← Record.addressesIn_append hdvd, List.take_append_drop]
  · rfl

/-- An address from the outermost end is the last. -/
theorem addresses_nextBack : t.addresses = t.nextBack.2.addresses ++ t.nextBack.1.toList := by
  rw [nextBack]
  split
  · rename_i hle
    have hentry := length_drop_entries hle
    have hdvd : addressWidth ∣ (t.entries.take (t.entries.length - addressWidth)).length := by
      rw [List.length_take, Nat.min_eq_left (Nat.sub_le _ _)]
      exact Nat.dvd_sub t.whole (Nat.dvd_refl _)
    rw [address?_eq hentry, Option.toList_some, ← Record.addressesIn_entry hentry, addresses,
      addresses, ← Record.addressesIn_append hdvd, List.take_append_drop]
  · exact (List.append_nil _).symm

/-- A draw has an answer exactly if there is an address left. -/
theorem isSome_draw (side : StackEnd) : (t.draw side).1.isSome = true ↔ 0 < t.length := by
  have hleft : 0 < t.length ↔ addressWidth ≤ t.entries.length :=
    Nat.div_pos_iff.trans (and_iff_right (by decide))
  rw [hleft]
  cases side with
  | innermost =>
    rw [draw, next]
    split
    · rename_i hle
      simp [address?_eq (length_take_entries hle), hle]
    · simp_all
  | outermost =>
    rw [draw, nextBack]
    split
    · rename_i hle
      simp [address?_eq (length_drop_entries hle), hle]
    · simp_all

theorem length_draw (side : StackEnd) : (t.draw side).2.length = t.length - 1 := by
  have hcount : t.length = (t.draw side).1.toList.length + (t.draw side).2.length := by
    cases side with
    | innermost =>
      rw [← length_addresses, ← length_addresses, ← List.length_append]
      exact congrArg List.length t.addresses_next
    | outermost =>
      rw [← length_addresses, ← length_addresses, Nat.add_comm, ← List.length_append]
      exact congrArg List.length t.addresses_nextBack
  cases hanswer : (t.draw side).1 with
  | none =>
    have hnone : ¬0 < t.length := by
      rw [← t.isSome_draw side, hanswer]
      exact Bool.false_ne_true
    rw [hanswer, Option.toList_none, List.length_nil] at hcount
    omega
  | some a =>
    rw [hanswer, Option.toList_some, List.length_singleton] at hcount
    omega

/-! ## All draws -/

variable {t} {ends : List StackEnd}

theorem run_cons : t.run (side :: ends) =
    ((side, (t.draw side).1) :: ((t.draw side).2.run ends).1, ((t.draw side).2.run ends).2) := rfl

theorem taken_cons {other : StackEnd} {answer : Option UInt64}
    {answers : List (StackEnd × Option UInt64)} :
    taken side ((other, answer) :: answers) =
      (if other = side then answer.toList else []) ++ taken side answers := by
  rw [taken, List.filterMap_cons]
  split <;> simp_all [taken]

/-- Every draw is answered. -/
theorem map_fst_run (t : StackTrace) (ends : List StackEnd) : (t.run ends).1.map Prod.fst = ends := by
  induction ends generalizing t with
  | nil => rfl
  | cons side ends ih => rw [run_cons, List.map_cons, ih]

/-- Each draw takes one address, until none is left. -/
theorem length_run (t : StackTrace) (ends : List StackEnd) :
    (t.run ends).2.length = t.length - ends.length := by
  induction ends generalizing t with
  | nil => rfl
  | cons side ends ih =>
    rw [run_cons, ih, length_draw, List.length_cons]
    omega

/-- The first draws have an answer, as many as there are addresses. -/
theorem isSome_run (t : StackTrace) (ends : List StackEnd) {i : Nat} {answer : Option UInt64}
    (h : (t.run ends).1[i]? = some (side, answer)) : answer.isSome = true ↔ i < t.length := by
  induction ends generalizing t i with
  | nil => simp [run] at h
  | cons other ends ih =>
    rw [run_cons] at h
    cases i with
    | zero =>
      simp only [List.getElem?_cons_zero, Option.some.injEq, Prod.mk.injEq] at h
      rw [← h.2]
      exact t.isSome_draw other
    | succ i =>
      rw [List.getElem?_cons_succ] at h
      rw [ih _ h, length_draw]
      omega

/-- What was drawn from the innermost end, what is left, and what was drawn from the outermost end are
the addresses in their order. -/
theorem taken_append_rest (t : StackTrace) (ends : List StackEnd) :
    taken .innermost (t.run ends).1 ++ (t.run ends).2.addresses ++
      (taken .outermost (t.run ends).1).reverse = t.addresses := by
  induction ends generalizing t with
  | nil => exact List.append_nil _
  | cons side ends ih =>
    rw [run_cons, taken_cons, taken_cons]
    cases side with
    | innermost =>
      rw [if_pos rfl, if_neg (by decide), List.nil_append, List.append_assoc, List.append_assoc,
        ← List.append_assoc (taken _ _), ih]
      exact t.addresses_next.symm
    | outermost =>
      rw [if_pos rfl, if_neg (by decide), List.nil_append, List.reverse_append, ← List.append_assoc,
        ih, show ∀ answer : Option UInt64, answer.toList.reverse = answer.toList by
          rintro (_ | _) <;> rfl]
      exact t.addresses_nextBack.symm

/-- Nothing is drawn from an end that is left alone. -/
theorem taken_eq_nil (t : StackTrace) (h : side ∉ ends) : taken side (t.run ends).1 = [] := by
  refine List.filterMap_eq_nil_iff.2 fun answer hanswer => if_neg ?_
  rintro rfl
  rw [← map_fst_run t ends] at h
  exact h (List.mem_map_of_mem hanswer)

/-- Whether a trace gives some addresses: in their order from the innermost end, the other way round
from the outermost, and from both ends, in whatever order they are drawn from, each address once. A
draw has no answer only after as many draws as there are addresses. -/
structure Yields (t : StackTrace) (addresses : List UInt64) : Prop where
  length : t.length = addresses.length
  forward : t.drain .innermost = addresses
  backward : t.drain .outermost = addresses.reverse
  asked : ∀ ends, (t.run ends).1.map Prod.fst = ends
  answered : ∀ ends i side answer, (t.run ends).1[i]? = some (side, answer) →
    (answer.isSome = true ↔ i < addresses.length)
  once : ∀ ends, ∃ rest,
    taken .innermost (t.run ends).1 ++ rest ++ (taken .outermost (t.run ends).1).reverse = addresses ∧
      rest.length = addresses.length - ends.length ∧ (t.run ends).2.length = rest.length

/-- Nothing is left when as much was drawn as there are addresses. -/
theorem addresses_run_replicate (t : StackTrace) (side : StackEnd) :
    (t.run (List.replicate t.length side)).2.addresses = [] := by
  rw [← List.length_eq_zero_iff, length_addresses, length_run, List.length_replicate, Nat.sub_self]

/-- Drawn from the front, the addresses come in their order. -/
theorem drain_innermost (t : StackTrace) : t.drain .innermost = t.addresses := by
  have hall := t.taken_append_rest (List.replicate t.length .innermost)
  have hnone : taken .outermost (t.run (List.replicate t.length .innermost)).1 = [] :=
    t.taken_eq_nil (by simp [List.mem_replicate])
  rw [addresses_run_replicate, hnone, List.append_nil, List.reverse_nil, List.append_nil] at hall
  exact hall

/-- Drawn from the back, the addresses come in the reverse order. -/
theorem drain_outermost (t : StackTrace) : t.drain .outermost = t.addresses.reverse := by
  have hall := t.taken_append_rest (List.replicate t.length .outermost)
  have hnone : taken .innermost (t.run (List.replicate t.length .outermost)).1 = [] :=
    t.taken_eq_nil (by simp [List.mem_replicate])
  rw [addresses_run_replicate, hnone, List.nil_append, List.nil_append] at hall
  rw [← hall, List.reverse_reverse, drain]

/-- A trace gives the addresses that were not drawn yet. -/
theorem yields (t : StackTrace) : t.Yields t.addresses where
  length := t.length_addresses.symm
  forward := t.drain_innermost
  backward := t.drain_outermost
  asked := t.map_fst_run
  answered ends i side answer h := by rw [length_addresses, t.isSome_run ends h]
  once ends := by
    refine ⟨_, t.taken_append_rest ends, ?_, (length_addresses _).symm⟩
    rw [length_addresses, length_addresses, length_run]

theorem yields_stack (r : Record) : (ofRecord r).Yields r.stack :=
  addresses_ofRecord r ▸ (ofRecord r).yields

end StackTrace

namespace Record

variable {r : Record} {region : Bytes}

theorem stack_new (header : EventHeader) (body : Bytes) : (new header body).stack = [] :=
  addressesIn_of_lt (by decide : ([] : Bytes).length < addressWidth)

/-- A stack is the words of its region in their order, and the bytes behind the last whole word
belong to none. -/
theorem addressBytes_stack (h : r.stackRegion? = some region) :
    addressBytes r.stack ++ region.drop (addressWidth * (region.length / addressWidth)) = region := by
  rw [stack_eq, h, Option.getD_some, addressBytes_addressesIn, List.take_append_drop]

theorem length_stack (h : r.stackRegion? = some region) :
    r.stack.length = region.length / addressWidth := by
  rw [stack_eq, h, Option.getD_some, length_addressesIn]

end Record

end EventTrace
