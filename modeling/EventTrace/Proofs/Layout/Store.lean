import EventTrace.Layout.Store
import Mathlib.Data.List.Dedup

/-!
# The first layout of a key stays

What can be asked of a registry is determined by the layouts that were to be registered, of which the
first of each key counts (`Registered`). A step keeps this, whether it registers or is refused, and
every call is answered by it (`Answers`); so a list of layouts and a hash map, which is changed in place,
answer alike, a refusal changes nothing, and layouts under different keys can be registered in any order
(`LayoutStore.first_wins`).
-/

namespace EventTrace

/-! ## The first layout of a key -/

/-- Whether a layout is the first of its key among some layouts. -/
def IsFirst (layouts : List Layout) (key : LayoutKey) (l : Layout) : Prop :=
  l.key = key ∧ ∃ before after, layouts = before ++ l :: after ∧ key ∉ before.map Layout.key

/-- Whether look-ups and a list of keys tell which layout is the first of a key among some layouts. -/
structure Registered (layouts : List Layout) (find : LayoutKey → Option Layout)
    (keys : List LayoutKey) : Prop where
  find_eq : ∀ key, find key = layouts.find? (·.key = key)
  nodup : keys.Nodup
  mem_keys : ∀ key, key ∈ keys ↔ key ∈ layouts.map Layout.key

/-- What is found under a key behind some attempts to register layouts. -/
inductive Found (attempts : List Layout) (key : LayoutKey) : Except LayoutError Layout → Prop
  | first {l : Layout} (h : IsFirst attempts key l) : Found attempts key (.ok l)
  | missing (h : key ∉ attempts.map Layout.key) : Found attempts key (.error (.notFound key))

/-- The answers to a call behind some attempts to register layouts. -/
inductive Answers (attempts : List Layout) : RegistryCall → RegistryReply → Prop
  | registered {l : Layout} (h : l.key ∉ attempts.map Layout.key) :
      Answers attempts (.register l) (.layout (.ok l))
  | refused {l : Layout} (h : l.key ∈ attempts.map Layout.key) :
      Answers attempts (.register l) (.layout (.error (.alreadyRegistered l.key)))
  /- The layout of a key, in either way to ask for it. -/
  | got {key : LayoutKey} {found : Except LayoutError Layout} (h : Found attempts key found) :
      Answers attempts (.get key) (.layout found)
  | resolved {key : LayoutKey} {found : Except LayoutError Layout} (h : Found attempts key found) :
      Answers attempts (.resolve key) (.layout found)
  /- What is there: every key once, in any order. -/
  | keys {keys : List LayoutKey} (nodup : keys.Nodup)
      (h : ∀ key, key ∈ keys ↔ key ∈ attempts.map Layout.key) : Answers attempts .keys (.keys keys)
  | size : Answers attempts .size (.size (attempts.map Layout.key).dedup.length)
  | isEmpty : Answers attempts .isEmpty (.isEmpty attempts.isEmpty)

theorem RegistryCall.attempts_cons (c : RegistryCall) (calls : List RegistryCall) :
    attempts (c :: calls) = attempts [c] ++ attempts calls :=
  List.filterMap_append (l := [c])

section Find

variable {layouts others : List Layout} {key : LayoutKey} {l : Layout}

theorem find?_key_eq_some_iff :
    layouts.find? (·.key = key) = some l ↔ IsFirst layouts key l := by
  rw [List.find?_eq_some_iff_append, IsFirst]
  simp only [decide_eq_true_eq, Bool.not_eq_eq_eq_not, Bool.not_true, decide_eq_false_iff_not,
    List.mem_map, not_exists, not_and]

theorem find?_key_eq_none_iff :
    layouts.find? (·.key = key) = none ↔ key ∉ layouts.map Layout.key := by
  simp

/-- Among layouts under different keys each is the first of its own. -/
theorem isFirst_of_mem (distinct : (layouts.map Layout.key).Nodup) (hl : l ∈ layouts) :
    IsFirst layouts l.key l := by
  obtain ⟨before, after, rfl⟩ := List.append_of_mem hl
  rw [List.map_append, List.map_cons, List.nodup_middle, List.nodup_cons] at distinct
  exact ⟨rfl, before, after, rfl, fun hmem => distinct.1 (List.mem_append_left _ hmem)⟩

/-- Among layouts under different keys it does not matter which one comes first. -/
theorem find?_key_of_perm (hperm : layouts.Perm others)
    (distinct : (layouts.map Layout.key).Nodup) :
    layouts.find? (·.key = key) = others.find? (·.key = key) := by
  induction hperm with
  | nil => rfl
  | cons l _ ih =>
    rw [List.map_cons, List.nodup_cons] at distinct
    rw [List.find?_cons, List.find?_cons, ih distinct.2]
  | swap l l' rest =>
    rw [List.map_cons, List.map_cons, List.nodup_cons, List.mem_cons, not_or] at distinct
    by_cases hl : l.key = key
    · have hl' : l'.key ≠ key := fun h => distinct.1.1 (h.trans hl.symm)
      simp [hl, hl']
    · simp [List.find?_cons, hl]
  | trans hperm _ ih ih' =>
    exact (ih distinct).trans (ih' ((hperm.map Layout.key).nodup_iff.1 distinct))

end Find

namespace Registered

variable {attempts : List Layout} {find find' : LayoutKey → Option Layout}
  {keys keys' : List LayoutKey} {key : LayoutKey} {l : Layout}

theorem nil : Registered [] (fun _ => none) [] := ⟨fun _ => rfl, .nil, fun _ => Iff.rfl⟩

theorem find_eq_none_iff (h : Registered attempts find keys) :
    find key = none ↔ key ∉ attempts.map Layout.key := by
  rw [h.find_eq, find?_key_eq_none_iff]

theorem find_eq_some_iff (h : Registered attempts find keys) :
    find key = some l ↔ IsFirst attempts key l := by
  rw [h.find_eq, find?_key_eq_some_iff]

theorem length_keys (h : Registered attempts find keys) :
    keys.length = (attempts.map Layout.key).dedup.length := by
  refine List.Perm.length_eq ((List.perm_ext_iff_of_nodup h.nodup (List.nodup_dedup _)).2 ?_)
  exact fun key => (h.mem_keys key).trans List.mem_dedup.symm

/-- A layout that look-ups find is the first of its key. -/
theorem found (h : Registered attempts find keys) (key : LayoutKey) :
    Found attempts key (match find key with
      | some l => .ok l
      | none => .error (.notFound key)) := by
  cases hfind : find key with
  | some l => exact .first (h.find_eq_some_iff.1 hfind)
  | none => exact .missing (h.find_eq_none_iff.1 hfind)

theorem perm_keys {others : List Layout} (h : Registered attempts find keys)
    (h' : Registered others find' keys') (hperm : attempts.Perm others) : keys.Perm keys' := by
  refine (List.perm_ext_iff_of_nodup h.nodup h'.nodup).2 fun key => ?_
  rw [h.mem_keys, h'.mem_keys, (hperm.map Layout.key).mem_iff]

/-- There are keys unless there was no attempt. -/
theorem keys_eq_nil_iff (h : Registered attempts find keys) : keys = [] ↔ attempts = [] := by
  rw [← List.map_eq_nil_iff (f := Layout.key), List.eq_nil_iff_forall_not_mem,
    List.eq_nil_iff_forall_not_mem]
  exact forall_congr' fun key => not_congr (h.mem_keys key)

/-- A layout whose key was registered changes nothing. -/
theorem refuse (h : Registered attempts find keys) (hl : l.key ∈ attempts.map Layout.key) :
    Registered (attempts ++ [l]) find keys := by
  refine ⟨fun key => ?_, h.nodup, fun key => ?_⟩
  · rw [h.find_eq, List.find?_append]
    by_cases hkey : l.key = key
    · obtain ⟨first, hfirst⟩ := Option.ne_none_iff_exists'.1
        (mt find?_key_eq_none_iff.1 (not_not.2 (hkey ▸ hl)))
      rw [hfirst, Option.some_or]
    · rw [List.find?_singleton, if_neg (by simpa using hkey), Option.or_none]
  · rw [h.mem_keys, List.map_append, List.mem_append, List.map_singleton, List.mem_singleton]
    exact ⟨.inl, fun hmem => hmem.elim id fun heq => heq ▸ hl⟩

/-- A layout under a new key is found under it, and the others stay. -/
theorem add (h : Registered attempts find keys) (hl : l.key ∉ attempts.map Layout.key)
    (hfind : ∀ key, find' key = if l.key = key then some l else find key) (nodup : keys'.Nodup)
    (hkeys : ∀ key, key ∈ keys' ↔ key = l.key ∨ key ∈ keys) :
    Registered (attempts ++ [l]) find' keys' := by
  refine ⟨fun key => ?_, nodup, fun key => ?_⟩
  · rw [hfind, h.find_eq, List.find?_append]
    by_cases hkey : l.key = key
    · rw [if_pos hkey, find?_key_eq_none_iff.2 (hkey ▸ hl), Option.none_or, List.find?_singleton,
        if_pos (by simpa using hkey)]
    · rw [if_neg hkey, List.find?_singleton, if_neg (by simpa using hkey), Option.or_none]
  · rw [hkeys, h.mem_keys, List.map_append, List.mem_append, List.map_singleton,
      List.mem_singleton, or_comm]

end Registered

/-! ## Lists of layouts -/

namespace Registry

variable {attempts : List Layout} {r : Registry}

/-- A registration is refused exactly if the key was registered before. -/
theorem register_eq (h : Registered attempts r.find? r.keys) (l : Layout) :
    r.register l =
      if l.key ∈ attempts.map Layout.key then .error (.alreadyRegistered l.key)
      else .ok ⟨r.entries ++ [l]⟩ := by
  rw [register]
  cases hfind : r.find? l.key with
  | some first => rw [if_pos (not_not.1 (mt h.find_eq_none_iff.2 (by simp [hfind])))]
  | none => rw [if_neg (h.find_eq_none_iff.1 hfind)]

/-- Registering a layout of a new key keeps the others. -/
theorem registered_append (h : Registered attempts r.find? r.keys) {l : Layout}
    (hl : l.key ∉ attempts.map Layout.key) :
    Registered (attempts ++ [l]) (find? ⟨r.entries ++ [l]⟩) (keys ⟨r.entries ++ [l]⟩) := by
  have hnew : l.key ∉ r.keys := mt (h.mem_keys l.key).1 hl
  refine h.add hl (fun key => ?_) ?_ fun key => ?_
  · rw [find?, List.find?_append, ← find?, List.find?_singleton]
    by_cases hkey : l.key = key
    · subst hkey
      rw [h.find_eq_none_iff.2 hl]
      simp
    · simp [hkey]
  · rw [keys, List.map_append, List.map_singleton, List.nodup_append_comm, List.singleton_append,
      List.nodup_cons]
    exact ⟨hnew, h.nodup⟩
  · rw [keys, List.map_append, List.mem_append, List.map_singleton, List.mem_singleton, or_comm]
    rfl

/-- A call is answered by what was to be registered before it, and keeps this for the next one. -/
theorem call_cases (h : Registered attempts r.find? r.keys) (c : RegistryCall) :
    Answers attempts c (r.call c).2 ∧
      Registered (attempts ++ RegistryCall.attempts [c]) (r.call c).1.find? (r.call c).1.keys := by
  have hsame : Registered (attempts ++ []) r.find? r.keys := (List.append_nil attempts).symm ▸ h
  cases c with
  | register l =>
    simp only [call, r.register_eq h]
    by_cases hl : l.key ∈ attempts.map Layout.key
    · rw [if_pos hl]
      exact ⟨.refused hl, h.refuse hl⟩
    · rw [if_neg hl]
      exact ⟨.registered hl, registered_append h hl⟩
  | get key => exact ⟨.got (h.found key), hsame⟩
  | resolve key => exact ⟨.resolved (h.found key), hsame⟩
  | keys => exact ⟨.keys h.nodup h.mem_keys, hsame⟩
  | size =>
    refine ⟨?_, hsame⟩
    have hsize : r.size = (attempts.map Layout.key).dedup.length := by
      rw [← h.length_keys, keys, List.length_map, size]
    rw [call, hsize]
    exact .size
  | isEmpty =>
    refine ⟨?_, hsame⟩
    have hempty : r.entries.isEmpty = attempts.isEmpty := by
      rw [Bool.eq_iff_iff, List.isEmpty_iff, List.isEmpty_iff, ← h.keys_eq_nil_iff, keys,
        List.map_eq_nil_iff]
    rw [call, hempty]
    exact .isEmpty

/-- A layout that is refused leaves the registry as it was. -/
theorem call_register_of_mem (h : Registered attempts r.find? r.keys) {l : Layout}
    (hl : l.key ∈ attempts.map Layout.key) :
    r.call (.register l) = (r, .layout (.error (.alreadyRegistered l.key))) := by
  simp only [call, register_eq h, if_pos hl]

/-- After any calls, each key has its first layout. -/
theorem registered_after (h : Registered attempts r.find? r.keys) (calls : List RegistryCall) :
    Registered (attempts ++ RegistryCall.attempts calls) (r.after calls).find? (r.after calls).keys := by
  induction calls generalizing r attempts with
  | nil => exact (List.append_nil attempts).symm ▸ h
  | cons c calls ih =>
    rw [RegistryCall.attempts_cons, ← List.append_assoc]
    exact ih (call_cases h c).2

theorem registered_empty : Registered [] empty.find? empty.keys := .nil

end Registry

/-! ## Hash maps -/

namespace LayoutStore

variable {attempts : List Layout} {s : LayoutStore}

theorem run_register (s : LayoutStore) (l : Layout) :
    (register l).run s =
      if s.layouts.contains l.key then .error (.alreadyRegistered l.key) s
      else .ok l ⟨s.layouts.insert l.key l⟩ := by
  by_cases h : l.key ∈ s.layouts <;> simp [register, h]

/-- What is asked of a hash map follows from its look-ups. -/
theorem registered_of_getElem? (h : ∀ key, s.layouts[key]? = attempts.find? (·.key = key)) :
    Registered attempts (s.layouts[·]?) s.layouts.keys := by
  refine ⟨h, Std.HashMap.nodup_keys, fun key => ?_⟩
  rw [Std.HashMap.mem_keys, Std.HashMap.mem_iff_isSome_getElem?, h, Option.isSome_iff_ne_none,
    Ne, find?_key_eq_none_iff, not_not]

theorem contains_iff (h : Registered attempts (s.layouts[·]?) s.layouts.keys) (key : LayoutKey) :
    s.layouts.contains key = true ↔ key ∈ attempts.map Layout.key := by
  rw [Std.HashMap.contains_iff_mem, ← Std.HashMap.mem_keys, h.mem_keys]

/-- A registration is refused exactly if the key was registered before. -/
theorem run_register_eq (h : Registered attempts (s.layouts[·]?) s.layouts.keys) (l : Layout) :
    (register l).run s =
      if l.key ∈ attempts.map Layout.key then .error (.alreadyRegistered l.key) s
      else .ok l ⟨s.layouts.insert l.key l⟩ := by
  simp only [run_register, contains_iff h]

theorem registered_insert (h : Registered attempts (s.layouts[·]?) s.layouts.keys) {l : Layout}
    (hl : l.key ∉ attempts.map Layout.key) :
    Registered (attempts ++ [l]) ((s.layouts.insert l.key l)[·]?)
      (s.layouts.insert l.key l).keys := by
  refine h.add hl (fun key => ?_) Std.HashMap.nodup_keys fun key => ?_
  · simp only [Std.HashMap.getElem?_insert, beq_iff_eq]
  · rw [Std.HashMap.mem_keys, Std.HashMap.mem_insert, Std.HashMap.mem_keys, beq_iff_eq, eq_comm]

/-- A call is answered by what was to be registered before it, and keeps this for the next one. -/
theorem call_cases (h : Registered attempts (s.layouts[·]?) s.layouts.keys) (c : RegistryCall) :
    Answers attempts c (s.call c).2 ∧
      Registered (attempts ++ RegistryCall.attempts [c]) ((s.call c).1.layouts[·]?)
        (s.call c).1.layouts.keys := by
  have hsame : Registered (attempts ++ []) (s.layouts[·]?) s.layouts.keys :=
    (List.append_nil attempts).symm ▸ h
  cases c with
  | register l =>
    simp only [call, run_register_eq h]
    by_cases hl : l.key ∈ attempts.map Layout.key
    · rw [if_pos hl]
      exact ⟨.refused hl, h.refuse hl⟩
    · rw [if_neg hl]
      exact ⟨.registered hl, registered_insert h hl⟩
  | get key => exact ⟨.got (h.found key), hsame⟩
  | resolve key => exact ⟨.resolved (h.found key), hsame⟩
  | keys => exact ⟨.keys h.nodup h.mem_keys, hsame⟩
  | size =>
    refine ⟨?_, hsame⟩
    rw [call, ← Std.HashMap.length_keys, h.length_keys]
    exact .size
  | isEmpty =>
    refine ⟨?_, hsame⟩
    have hempty : s.layouts.isEmpty = attempts.isEmpty := by
      rw [Bool.eq_iff_iff, List.isEmpty_iff, ← h.keys_eq_nil_iff, ← List.length_eq_zero_iff,
        Std.HashMap.length_keys, Std.HashMap.isEmpty_eq_size_eq_zero, beq_iff_eq]
    rw [call, hempty]
    exact .isEmpty

theorem registered_after (h : Registered attempts (s.layouts[·]?) s.layouts.keys)
    (calls : List RegistryCall) :
    Registered (attempts ++ RegistryCall.attempts calls) ((s.after calls).layouts[·]?)
      (s.after calls).layouts.keys := by
  induction calls generalizing s attempts with
  | nil => exact (List.append_nil attempts).symm ▸ h
  | cons c calls ih =>
    rw [RegistryCall.attempts_cons, ← List.append_assoc]
    exact ih (call_cases h c).2

theorem registered_empty : Registered [] (empty.layouts[·]?) empty.layouts.keys :=
  registered_of_getElem? fun _ => Std.HashMap.getElem?_empty

/-- A layout that is refused leaves the store as it was. -/
theorem call_register_of_mem (h : Registered attempts (s.layouts[·]?) s.layouts.keys) {l : Layout}
    (hl : l.key ∈ attempts.map Layout.key) :
    s.call (.register l) = (s, .layout (.error (.alreadyRegistered l.key))) := by
  simp only [call, run_register_eq h, if_pos hl]

/-- At every point of a sequence of calls the next one is answered by what was to be registered before,
the first layout of each key: by a hash map as by a list. A registration that is refused changes neither
of them. Every layout in a hash map is under its own key. Where the keys are different, the order of
the registrations does not matter. -/
theorem first_wins :
    (∀ calls : List RegistryCall,
      let s := empty.after calls
      let r := Registry.empty.after calls
      let attempts := RegistryCall.attempts calls
      (∀ c, Answers attempts c (s.call c).2 ∧ Answers attempts c (r.call c).2) ∧
      (∀ l, l.key ∈ attempts.map Layout.key →
        (s.call (.register l)).1 = s ∧ (r.call (.register l)).1 = r) ∧
      ∀ (key : LayoutKey) (l : Layout), s.layouts[key]? = some l → l.key = key) ∧
    ∀ calls others : List RegistryCall,
      (RegistryCall.attempts calls).Perm (RegistryCall.attempts others) →
      ((RegistryCall.attempts calls).map Layout.key).Nodup →
      (empty.after calls).layouts.Equiv (empty.after others).layouts ∧
        (∀ key, (Registry.empty.after calls).find? key = (Registry.empty.after others).find? key) ∧
        (Registry.empty.after calls).keys.Perm (Registry.empty.after others).keys := by
  have hstore : ∀ calls : List RegistryCall, Registered (RegistryCall.attempts calls)
      ((empty.after calls).layouts[·]?) (empty.after calls).layouts.keys :=
    registered_after registered_empty
  have hlist : ∀ calls : List RegistryCall, Registered (RegistryCall.attempts calls)
      (Registry.empty.after calls).find? (Registry.empty.after calls).keys :=
    Registry.registered_after Registry.registered_empty
  refine ⟨fun calls => ⟨fun c => ?_, fun l hl => ⟨?_, ?_⟩, fun key l hl => ?_⟩, ?_⟩
  · exact ⟨(call_cases (hstore calls) c).1, (Registry.call_cases (hlist calls) c).1⟩
  · rw [call_register_of_mem (hstore calls) hl]
  · rw [Registry.call_register_of_mem (hlist calls) hl]
  · exact ((hstore calls).find_eq_some_iff.1 hl).1
  · intro calls others hperm distinct
    refine ⟨.of_forall_getElem?_eq fun key => ?_, fun key => ?_,
      (hlist calls).perm_keys (hlist others) hperm⟩
    · rw [(hstore calls).find_eq key, (hstore others).find_eq key, find?_key_of_perm hperm distinct]
    · rw [(hlist calls).find_eq key, (hlist others).find_eq key, find?_key_of_perm hperm distinct]

def bare (id : UInt16) (name : String) : Layout := (Layout.empty ⟨id, 1⟩).withName (some name)

/-- A second layout of a key is refused under another name as well, and two keys are registered in
either order. -/
theorem first_wins_renamed :
    let first := [RegistryCall.register (bare 1 "Start")]
    (bare 1 "Begin").key ∈ (RegistryCall.attempts first).map Layout.key ∧
      ((empty.after first).call (.register (bare 1 "Begin"))).1 = empty.after first ∧
      ((empty.after (first ++ [.register (bare 2 "Stop")])).layouts.Equiv
        (empty.after (.register (bare 2 "Stop") :: first)).layouts) := by
  obtain ⟨hpoint, horder⟩ := first_wins
  have hkey : (bare 1 "Begin").key ∈
      (RegistryCall.attempts [.register (bare 1 "Start")]).map Layout.key := by decide
  refine ⟨hkey, ((hpoint _).2.1 (bare 1 "Begin") hkey).1, (horder _ _ ?_ (by decide)).1⟩
  exact .swap _ _ _

end LayoutStore

end EventTrace
