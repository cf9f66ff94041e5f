/-
# ScriptLang.Proofs.Filing -- slots by number, and numbers in order

A store is one list of slots.  Kept in two parts it is a table, where the slot of a
number is found at once, and beside it the numbers in the order in which their slots
came (`Filed`).  Every change is made to both parts, to each on its own, so they could
come apart: a number could stay in the order when its slot is gone, or get there twice.

From the empty store on they stay in step (`Filed.InStep`).  The numbers of a store that
started empty are distinct (`Store.nodup_after`), so a number stands for one slot; a
store can then be filed, and filing goes along with every change (`Store.filed_change`).
Without distinct numbers it would not: dropping the first of two slots of one number
brings the second to light, and in a table there is no second one.

The order of the slots is told from the changes alone.  A variable counts from the first
of the changes that gave it a value and since which it has had one all the time
(`Entered`); a variable that lost its slot and got one again counts from the later
change.
-/
import Mathlib.Data.List.Induction
import Mathlib.Data.List.Nodup
import Mathlib.Order.Bounds.Basic
import ScriptLang.Proofs.Store

namespace ScriptLang

set_option autoImplicit false

/-- A change to a store. -/
inductive Change where
  | upsert (v : Variable) (value : Value)
  | assign (id : Nat) (value : Value)
  | retain (keep : Slot → Bool)
  | clear

namespace Store

/-- The store after a change.  It stays as it is if an assignment is refused. -/
def change (s : Store) : Change → Store
  | .upsert v value => s.upsert v value
  | .assign id value => (s.assign? id value).getD s
  | .retain keep => s.retain keep
  | .clear => .empty

/-- The empty store after some changes. -/
def after (changes : List Change) : Store := changes.foldl change .empty

theorem after_append (changes : List Change) (c : Change) :
    after (changes ++ [c]) = (after changes).change c := by
  rw [after, List.foldl_append]
  rfl

/-! ## Numbers -/

/-- The numbers of the slots, in order. -/
def ids (s : Store) : List Nat := s.slots.map (·.symbol.id)

/-- The slot of a number. -/
def slot? (s : Store) (id : Nat) : Option Slot := s.slots.find? (·.symbol.id = id)

theorem ids_eq (s : Store) : s.ids = s.symbols.map (·.id) := by
  rw [ids, symbols, List.map_map]
  rfl

theorem contains_iff_ids {s : Store} {id : Nat} : s.contains id = true ↔ id ∈ s.ids := by
  rw [contains_iff, ids, List.mem_map]

/-- A change takes variables away, or adds one that has no slot at the end. -/
theorem symbols_change (s : Store) (c : Change) :
    (s.change c).symbols.Sublist s.symbols ∨
      ∃ v x, c = .upsert v x ∧ s.contains v.id = false ∧
        (s.change c).symbols = s.symbols ++ [v] := by
  cases c with
  | upsert v x =>
      cases present : s.contains v.id with
      | true => exact .inl (by simp [change, symbols_upsert, present])
      | false => exact .inr ⟨v, x, rfl, present, by simp [change, symbols_upsert, present]⟩
  | assign id x =>
      left
      rw [change]
      cases assigned : s.assign? id x with
      | none => exact .refl _
      | some t => rw [Option.getD_some, symbols_assign? assigned]
  | retain keep => exact .inl (List.filter_sublist.map _)
  | clear => exact .inl (List.nil_sublist _)

theorem nodup_change {s : Store} (distinct : s.ids.Nodup) (c : Change) :
    (s.change c).ids.Nodup := by
  rw [ids_eq] at distinct ⊢
  rcases symbols_change s c with less | ⟨v, x, -, absent, more⟩
  · exact distinct.sublist (less.map _)
  · rw [more, List.map_append, List.map_singleton]
    refine List.nodup_append.2 ⟨distinct, List.nodup_singleton _, ?_⟩
    rintro _ member _ last rfl
    rw [List.mem_singleton.1 last, ← ids_eq, ← contains_iff_ids, absent] at member
    cases member

theorem nodup_after (changes : List Change) : (after changes).ids.Nodup := by
  induction changes using List.reverseRecOn with
  | nil => exact List.nodup_nil
  | append_singleton changes c ih => rw [after_append]; exact nodup_change ih c

/-! ## Slots by number -/

section

variable {s : Store}

theorem id_of_slot? {id : Nat} {slot : Slot} (found : s.slot? id = some slot) :
    slot.symbol.id = id := by
  simpa using List.find?_some found

/-- Among distinct numbers the slot of a number is the only one. -/
theorem slot?_eq_some_iff (distinct : s.ids.Nodup) {id : Nat} {slot : Slot} :
    s.slot? id = some slot ↔ slot ∈ s.slots ∧ slot.symbol.id = id := by
  constructor
  · exact fun found => ⟨List.mem_of_find?_eq_some found, id_of_slot? found⟩
  · rintro ⟨member, rfl⟩
    cases found : s.slot? slot.symbol.id with
    | none =>
        have other := List.find?_eq_none.1 found slot member
        simp at other
    | some first =>
        have stored := List.mem_of_find?_eq_some found
        rw [List.inj_on_of_nodup_map distinct stored member (id_of_slot? found)]

theorem slot?_of_mem (distinct : s.ids.Nodup) {slot : Slot} (member : slot ∈ s.slots) :
    s.slot? slot.symbol.id = some slot :=
  (slot?_eq_some_iff distinct).2 ⟨member, rfl⟩

theorem isSome_slot? (id : Nat) : (s.slot? id).isSome = s.contains id := by
  rw [slot?, contains, Bool.eq_iff_iff, List.find?_isSome, List.any_eq_true]

theorem get?_eq_slot? (id : Nat) : s.get? id = (s.slot? id).map (·.value) := rfl

theorem slot?_assign? {t : Store} {id : Nat} {x : Value} (h : s.assign? id x = some t) (i : Nat) :
    t.slot? i = (s.slot? i).map (setSlot id x) := by
  rw [slot?, slots_assign? h, List.find?_map]
  simp only [Function.comp_def, setSlot_symbol]
  rfl

theorem slot?_append (slot : Slot) (i : Nat) :
    slot? ⟨s.slots ++ [slot]⟩ i =
      (s.slot? i).or (if slot.symbol.id = i then some slot else none) := by
  rw [slot?, List.find?_append, List.find?_singleton]
  simp only [decide_eq_true_eq]
  rfl

theorem slot?_retain (distinct : s.ids.Nodup) (keep : Slot → Bool) (id : Nat) :
    (s.retain keep).slot? id = (s.slot? id).filter keep := by
  have fewer : (s.retain keep).ids.Nodup := nodup_change distinct (.retain keep)
  -- by membership: that nothing else of the number is left to be found is what `distinct` says
  ext slot
  rw [slot?_eq_some_iff fewer, Option.filter_eq_some_iff, slot?_eq_some_iff distinct, retain,
    List.mem_filter]
  tauto

theorem map_setSlot_of_ne {id : Nat} {slots : List Slot}
    (others : ∀ slot ∈ slots, slot.symbol.id ≠ id) (x : Value) :
    slots.map (setSlot id x) = slots := by
  calc slots.map (setSlot id x) = slots.map fun slot => slot :=
        List.map_congr_left fun slot member => if_neg (others slot member)
    _ = slots := List.map_id' _

/-- Setting a slot changes its value, and nothing before and after it. -/
theorem map_setSlot_split (distinct : s.ids.Nodup) {before rest : List Slot} {slot : Slot}
    (split : s.slots = before ++ slot :: rest) (x : Value) :
    s.slots.map (setSlot slot.symbol.id x) = before ++ { slot with value := x } :: rest := by
  rw [ids, split, List.map_append, List.map_cons, List.nodup_middle, List.nodup_cons,
    ← List.map_append, List.mem_map] at distinct
  have others (t : Slot) (member : t ∈ before ++ rest) : t.symbol.id ≠ slot.symbol.id :=
    fun same => distinct.1 ⟨t, member, same⟩
  have front := map_setSlot_of_ne (fun t member => others t (List.mem_append_left _ member)) x
  have back := map_setSlot_of_ne (fun t member => others t (List.mem_append_right _ member)) x
  rw [split, List.map_append, List.map_cons, front, back, setSlot, if_pos rfl]

end

end Store

/-! ## Two parts -/

/-- A store in two parts. -/
structure Filed where
  /-- The numbers, in the order in which their slots came. -/
  order : List Nat
  /-- The slots by number. -/
  table : Std.ExtHashMap Nat Slot

namespace Filed

def empty : Filed := ⟨[], ∅⟩

def get? (f : Filed) (id : Nat) : Option Value := f.table[id]?.map (·.value)

/-- The slots, in order. -/
def slots (f : Filed) : List Slot := f.order.filterMap fun id => f.table[id]?

def size (f : Filed) : Nat := f.table.size

/-- The latest slot of a name, looked for from the end of the order. -/
def lookup? (f : Filed) (name : String) : Option Slot :=
  (f.order.reverse.filterMap fun id => f.table[id]?).find? (·.symbol.name = name)

/-- Change the value of a variable, if it has a slot. -/
def assign? (f : Filed) (id : Nat) (value : Value) : Option Filed :=
  f.table[id]?.map fun slot => { f with table := f.table.insert id { slot with value := value } }

/-- Give a variable a value.  One without a slot gets it in both parts. -/
def upsert (f : Filed) (v : Variable) (value : Value) : Filed :=
  (f.assign? v.id value).getD ⟨f.order ++ [v.id], f.table.insert v.id ⟨v, value⟩⟩

/-- Keep only some slots, and then the numbers that still have one. -/
def retain (f : Filed) (keep : Slot → Bool) : Filed :=
  let table := f.table.filter fun _ slot => keep slot
  ⟨f.order.filter fun id => table.contains id, table⟩

def change (f : Filed) : Change → Filed
  | .upsert v value => f.upsert v value
  | .assign id value => (f.assign? id value).getD f
  | .retain keep => f.retain keep
  | .clear => .empty

/-- The empty store after some changes, all of them made to both parts. -/
def after (changes : List Change) : Filed := changes.foldl change .empty

theorem after_append (changes : List Change) (c : Change) :
    after (changes ++ [c]) = (after changes).change c := by
  rw [after, List.foldl_append]
  rfl

/-- Whether the parts are about the same slots. -/
structure InStep (f : Filed) : Prop where
  distinct : f.order.Nodup
  mem_order : ∀ id, id ∈ f.order ↔ id ∈ f.table
  own : ∀ (id : Nat) (slot : Slot), f.table[id]? = some slot → slot.symbol.id = id

/-- Whether a store in two parts answers as a list of slots does. -/
structure Shows (f : Filed) (s : Store) : Prop where
  slots : f.slots = s.slots
  size : f.size = s.slots.length
  get? : ∀ id, f.get? id = s.get? id
  lookup? : ∀ name, f.lookup? name = s.lookup? name
  assigns : ∀ id value, (f.assign? id value).isSome = (s.assign? id value).isSome

end Filed

namespace Store

/-- A store filed: its numbers in order, and its slots by number. -/
def filed (s : Store) : Filed :=
  ⟨s.ids, .ofList (s.slots.map fun slot => (slot.symbol.id, slot))⟩

section

variable {s : Store}

theorem pairwise_entries (distinct : s.ids.Nodup) :
    (s.slots.map fun slot => (slot.symbol.id, slot)).Pairwise fun a b => (a.1 == b.1) = false := by
  rw [ids, List.nodup_iff_pairwise_ne, List.pairwise_map] at distinct
  exact List.pairwise_map.2 (distinct.imp fun other => beq_eq_false_iff_ne.2 other)

/-- What is found in the table is what is found in the list. -/
theorem getElem?_filed (distinct : s.ids.Nodup) (id : Nat) : s.filed.table[id]? = s.slot? id := by
  cases found : s.slot? id with
  | none =>
      have absent : id ∉ s.ids := by
        rw [← contains_iff_ids, ← isSome_slot?, found]
        exact Bool.false_ne_true
      refine Std.ExtHashMap.getElem?_ofList_of_contains_eq_false ?_
      rw [List.map_map]
      exact Bool.eq_false_iff.2 fun listed => absent (List.contains_iff_mem.1 listed)
  | some slot =>
      obtain ⟨member, rfl⟩ := (slot?_eq_some_iff distinct).1 found
      exact Std.ExtHashMap.getElem?_ofList_of_mem (BEq.refl _) (pairwise_entries distinct)
        (List.mem_map_of_mem member)

theorem filed_eq {f : Filed} (distinct : s.ids.Nodup) (order : s.ids = f.order)
    (table : ∀ id, s.slot? id = f.table[id]?) : s.filed = f := by
  have same : s.filed.table = f.table :=
    Std.ExtHashMap.ext_getElem? fun id => (getElem?_filed distinct id).trans (table id)
  calc s.filed = ⟨s.filed.order, s.filed.table⟩ := rfl
    _ = ⟨f.order, f.table⟩ := by rw [same, ← order]; rfl

theorem inStep_filed (distinct : s.ids.Nodup) : s.filed.InStep where
  distinct := distinct
  mem_order id := by
    rw [Std.ExtHashMap.mem_iff_isSome_getElem?, getElem?_filed distinct, isSome_slot?,
      contains_iff_ids]
    rfl
  own id slot found := by
    rw [getElem?_filed distinct] at found
    exact id_of_slot? found

/-- Read through the table, the order gives the slots. -/
theorem filterMap_filed (distinct : s.ids.Nodup) :
    (s.ids.filterMap fun id => s.filed.table[id]?) = s.slots := by
  have found (slot : Slot) (member : slot ∈ s.slots) :
      s.filed.table[slot.symbol.id]? = some slot := by
    rw [getElem?_filed distinct, slot?_of_mem distinct member]
  rw [ids, List.filterMap_map]
  exact (List.filterMap_congr found).trans List.filterMap_some

theorem ids_assign? {t : Store} {id : Nat} {x : Value} (h : s.assign? id x = some t) :
    t.ids = s.ids := by
  rw [ids_eq, ids_eq, symbols_assign? h]

theorem filed_assign? (distinct : s.ids.Nodup) (id : Nat) (x : Value) :
    (s.assign? id x).map filed = s.filed.assign? id x := by
  rw [Filed.assign?, getElem?_filed distinct]
  cases assigned : s.assign? id x with
  | none =>
      have absent := assign?_eq_none_iff.1 assigned
      rw [get?_eq_slot?, Option.map_eq_none_iff] at absent
      rw [absent]
      rfl
  | some t =>
      have order := ids_assign? assigned
      have present := contains_of_assign? assigned
      rw [← isSome_slot?, Option.isSome_iff_exists] at present
      obtain ⟨slot, found⟩ := present
      rw [found, Option.map_some, Option.map_some]
      refine congrArg some (filed_eq (order ▸ distinct) order fun i => ?_)
      rw [slot?_assign? assigned, Std.ExtHashMap.getElem?_insert, getElem?_filed distinct]
      by_cases same : id = i
      · subst same
        rw [found, Option.map_some, setSlot, if_pos (id_of_slot? found), if_pos (BEq.refl _)]
      · rw [if_neg (fun here => same (eq_of_beq here))]
        cases other : s.slot? i with
        | none => rfl
        | some t =>
            have notHere : ¬ t.symbol.id = id := fun here => same (here ▸ id_of_slot? other)
            rw [Option.map_some, setSlot, if_neg notHere]

theorem filed_upsert (distinct : s.ids.Nodup) (v : Variable) (x : Value) :
    (s.upsert v x).filed = s.filed.upsert v x := by
  rw [Filed.upsert, ← filed_assign? distinct]
  cases present : s.contains v.id with
  | true => rw [upsert_of_contains x present]; rfl
  | false =>
      have later := nodup_change distinct (.upsert v x)
      have refused : s.assign? v.id x = none := assign?_eq_none_iff.2 (get?_eq_none_iff.2 present)
      rw [change, upsert_of_not_contains x present] at later
      rw [refused, upsert_of_not_contains x present, Option.map_none, Option.getD_none]
      refine filed_eq later List.map_append fun i => ?_
      rw [slot?_append, Std.ExtHashMap.getElem?_insert, getElem?_filed distinct]
      by_cases same : v.id = i
      · subst same
        have absent : s.slot? v.id = none := by
          rw [← Option.not_isSome_iff_eq_none, isSome_slot?, present]
          exact Bool.false_ne_true
        simp [absent]
      · simp [same]

theorem filed_retain (distinct : s.ids.Nodup) (keep : Slot → Bool) :
    (s.retain keep).filed = s.filed.retain keep := by
  have kept (id : Nat) : (s.filed.table.filter fun _ slot => keep slot)[id]? =
      (s.retain keep).slot? id := by
    rw [Std.ExtHashMap.getElem?_filter', getElem?_filed distinct, slot?_retain distinct]
  -- the list goes by `keep`, and the order by what the table still has
  have listed (slot : Slot) (member : slot ∈ s.slots) :
      keep slot = (s.filed.table.filter fun _ slot => keep slot).contains slot.symbol.id := by
    rw [Std.ExtHashMap.contains_eq_isSome_getElem?, kept, slot?_retain distinct,
      slot?_of_mem distinct member, Option.filter_some]
    cases keep slot <;> rfl
  refine filed_eq (nodup_change distinct (.retain keep)) ?_ fun id => (kept id).symm
  calc (s.retain keep).ids
      = (s.slots.filter fun slot =>
          (s.filed.table.filter fun _ slot => keep slot).contains slot.symbol.id).map
          (·.symbol.id) := congrArg (List.map _) (List.filter_congr listed)
    _ = s.ids.filter fun id => (s.filed.table.filter fun _ slot => keep slot).contains id :=
        List.filter_map.symm

theorem filed_empty : empty.filed = .empty :=
  filed_eq List.nodup_nil rfl fun _ => Std.ExtHashMap.getElem?_empty.symm

theorem filed_change (distinct : s.ids.Nodup) (c : Change) :
    (s.change c).filed = s.filed.change c := by
  cases c with
  | upsert v x => exact filed_upsert distinct v x
  | assign id x =>
      rw [change, Filed.change, ← filed_assign? distinct]
      cases s.assign? id x with
      | none => rfl
      | some t => rfl
  | retain keep => exact filed_retain distinct keep
  | clear => exact filed_empty

end

theorem filed_after (changes : List Change) : (after changes).filed = Filed.after changes := by
  induction changes using List.reverseRecOn with
  | nil => exact filed_empty
  | append_singleton changes c ih =>
      rw [after_append, Filed.after_append, filed_change (nodup_after changes), ih]

theorem shows_filed {s : Store} (distinct : s.ids.Nodup) : s.filed.Shows s where
  slots := filterMap_filed distinct
  size := by
    rw [Filed.size, filed, Std.ExtHashMap.size_ofList (pairwise_entries distinct), List.length_map]
  get? id := by rw [Filed.get?, getElem?_filed distinct, get?_eq_slot?]
  lookup? name := by
    rw [Filed.lookup?, List.filterMap_reverse]
    exact congrArg (fun slots : List Slot => slots.reverse.find? (·.symbol.name = name))
      (filterMap_filed distinct)
  assigns id x := by rw [← filed_assign? distinct, Option.isSome_map]

end Store

/-! ## The order of the slots -/

/-- Whether a change gave a variable a value, and it has had one since. -/
def HasSince (changes : List Change) (id : Nat) (k : Nat) : Prop :=
  (∃ v x, changes[k]? = some (.upsert v x) ∧ v.id = id) ∧
    ∀ j, k < j → j ≤ changes.length → (Store.after (changes.take j)).contains id = true

/-- Whether a variable got its slot from a change: the first that gave a variable of its number a
value that stayed. -/
def Entered (changes : List Change) (v : Variable) (k : Nat) : Prop :=
  IsLeast {k | HasSince changes v.id k} k ∧ ∃ x, changes[k]? = some (.upsert v x)

section

variable {changes : List Change}

theorem HasSince.lt {id k : Nat} (since : HasSince changes id k) : k < changes.length := by
  obtain ⟨⟨v, x, given, -⟩, -⟩ := since
  exact (List.getElem?_eq_some_iff.1 given).1

/-- With one more change, a variable that still has a value has it since as before, or since that
change. -/
theorem hasSince_append {c : Change} {id : Nat}
    (still : (Store.after (changes ++ [c])).contains id = true) (k : Nat) :
    HasSince (changes ++ [c]) id k ↔
      HasSince changes id k ∨ k = changes.length ∧ ∃ v x, c = .upsert v x ∧ v.id = id := by
  -- the stores on the way are those from before, and then the one that `still` is about
  have length : (changes ++ [c]).length = changes.length + 1 := List.length_append
  have before (j : Nat) (early : j ≤ changes.length) : (changes ++ [c]).take j = changes.take j :=
    List.take_append_of_le_length early
  have whole : (changes ++ [c]).take (changes.length + 1) = changes ++ [c] := by
    rw [← length, List.take_length]
  constructor
  · intro since
    have bound := since.lt
    obtain ⟨⟨v, x, given, same⟩, later⟩ := since
    rcases Nat.lt_or_eq_of_le (Nat.le_of_lt_succ (length ▸ bound)) with early | rfl
    · rw [List.getElem?_append_left early] at given
      refine .inl ⟨⟨v, x, given, same⟩, fun j after within => ?_⟩
      rw [← before j within]
      exact later j after (by omega)
    · rw [List.getElem?_concat_length] at given
      exact .inr ⟨rfl, v, x, Option.some.inj given, same⟩
  · rintro (since | ⟨rfl, v, x, rfl, same⟩)
    · have early := since.lt
      obtain ⟨⟨v, x, given, same⟩, later⟩ := since
      have stands : (changes ++ [c])[k]? = some (.upsert v x) := by
        rw [List.getElem?_append_left early, given]
      refine ⟨⟨v, x, stands, same⟩, fun j after within => ?_⟩
      rcases Nat.lt_or_eq_of_le (length ▸ within) with less | rfl
      · rw [before j (Nat.le_of_lt_succ less)]
        exact later j after (Nat.le_of_lt_succ less)
      · rw [whole, still]
    · refine ⟨⟨v, x, List.getElem?_concat_length, same⟩, fun j after within => ?_⟩
      obtain rfl : j = changes.length + 1 := by omega
      rw [whole, still]

theorem Entered.append {c : Change} {v : Variable} {k : Nat} (entered : Entered changes v k)
    (still : (Store.after (changes ++ [c])).contains v.id = true) :
    Entered (changes ++ [c]) v k := by
  obtain ⟨⟨since, least⟩, x, given⟩ := entered
  have early : k < changes.length := HasSince.lt since
  refine ⟨⟨(hasSince_append still k).2 (.inl since), fun j later => ?_⟩, x, ?_⟩
  · rcases (hasSince_append still j).1 later with before | ⟨rfl, -⟩
    · exact least before
    · exact early.le
  · rw [List.getElem?_append_left early, given]

/-- A variable that had no value enters with the change that gives it one. -/
theorem entered_new {v : Variable} {x : Value}
    (absent : (Store.after changes).contains v.id = false)
    (now : (Store.after (changes ++ [.upsert v x])).contains v.id = true) :
    Entered (changes ++ [.upsert v x]) v changes.length := by
  refine ⟨⟨(hasSince_append now _).2 (.inr ⟨rfl, v, x, rfl, rfl⟩), fun j since => ?_⟩, x, ?_⟩
  · rcases (hasSince_append now j).1 since with before | ⟨rfl, -⟩
    · have present := before.2 changes.length before.lt (Nat.le_refl _)
      rw [List.take_length, absent] at present
      cases present
    · exact Nat.le_refl _
  · exact List.getElem?_concat_length

theorem Entered.unique {v : Variable} {i j : Nat} (first : Entered changes v i)
    (second : Entered changes v j) : i = j :=
  first.1.unique second.1

theorem Entered.append_iff {c : Change} {v : Variable} (entered : ∃ k, Entered changes v k)
    (still : (Store.after (changes ++ [c])).contains v.id = true) (k : Nat) :
    Entered (changes ++ [c]) v k ↔ Entered changes v k := by
  obtain ⟨i, here⟩ := entered
  exact ⟨fun there => there.unique (here.append still) ▸ here, fun there => there.append still⟩

/-- Whether variables entered one after the other. -/
structure EnteredInTurn (changes : List Change) (vs : List Variable) : Prop where
  entered : ∀ v ∈ vs, ∃ k, Entered changes v k
  inOrder : vs.Pairwise fun v w => ∀ i j, Entered changes v i → Entered changes w j → i < j

namespace EnteredInTurn

variable {vs ws : List Variable}

/-- The variables that are left after a change are in the order in which they were. -/
theorem append {c : Change} (turn : EnteredInTurn changes vs) (less : ws.Sublist vs)
    (still : ∀ v ∈ ws, (Store.after (changes ++ [c])).contains v.id = true) :
    EnteredInTurn (changes ++ [c]) ws where
  entered v member := by
    obtain ⟨k, entered⟩ := turn.entered v (less.subset member)
    exact ⟨k, entered.append (still v member)⟩
  inOrder := by
    refine (turn.inOrder.sublist less).imp_of_mem fun {v w} first second order i j one other => ?_
    have before := turn.entered v (less.subset first)
    have after := turn.entered w (less.subset second)
    exact order i j ((Entered.append_iff before (still v first) i).1 one)
      ((Entered.append_iff after (still w second) j).1 other)

/-- A variable that had no value comes after those that have one. -/
theorem concat {v : Variable} {x : Value} (turn : EnteredInTurn changes vs)
    (absent : (Store.after changes).contains v.id = false)
    (still : ∀ w ∈ vs ++ [v], (Store.after (changes ++ [.upsert v x])).contains w.id = true) :
    EnteredInTurn (changes ++ [.upsert v x]) (vs ++ [v]) := by
  have old (w : Variable) (member : w ∈ vs) := still w (List.mem_append_left _ member)
  have new := entered_new absent (still v List.mem_concat_self)
  obtain ⟨entered, inOrder⟩ := turn.append (.refl _) old
  constructor
  · intro w member
    rcases List.mem_append.1 member with early | last
    · exact entered w early
    · rw [List.mem_singleton.1 last]
      exact ⟨changes.length, new⟩
  · refine List.pairwise_append.2 ⟨inOrder, List.pairwise_singleton _ _, ?_⟩
    intro w early _ last i j one other
    obtain rfl := List.mem_singleton.1 last
    rw [other.unique new]
    exact HasSince.lt ((Entered.append_iff (turn.entered w early) (old w early) i).1 one).1.1

end EnteredInTurn

end

namespace Store

theorem enteredInTurn_after (changes : List Change) :
    EnteredInTurn changes (after changes).symbols := by
  induction changes using List.reverseRecOn with
  | nil => exact ⟨nofun, .nil⟩
  | append_singleton changes c ih =>
      have still (v : Variable) (now : v ∈ (after (changes ++ [c])).symbols) :
          (after (changes ++ [c])).contains v.id = true :=
        contains_iff_symbols.2 ⟨v, now, rfl⟩
      have step := symbols_change (after changes) c
      rw [← after_append] at step
      rcases step with less | ⟨v, x, rfl, absent, more⟩
      · exact ih.append less still
      · rw [more] at still ⊢
        exact ih.concat absent still

/-! ## Main statement -/

/-- What the changes do to the slots of a store. -/
structure Orderly (s : Store) : Prop where
  /-- A variable with a slot keeps its place, and only the value is another one. -/
  upsert_here : ∀ before slot rest, s.slots = before ++ slot :: rest → ∀ v x,
    v.id = slot.symbol.id → (s.upsert v x).slots = before ++ { slot with value := x } :: rest
  upsert_new : ∀ v x, v.id ∉ s.ids → (s.upsert v x).slots = s.slots ++ [⟨v, x⟩]
  assign_here : ∀ before slot rest, s.slots = before ++ slot :: rest → ∀ x,
    (s.assign? slot.symbol.id x).map (·.slots) =
      some (before ++ { slot with value := x } :: rest)
  /-- Without a slot an assignment is refused, and only then. -/
  assign_refused : ∀ id x, s.assign? id x = none ↔ id ∉ s.ids
  assign_absent : ∀ id x, id ∉ s.ids → s.change (.assign id x) = s
  retain_order : ∀ keep, (s.retain keep).slots.Sublist s.slots
  mem_retain : ∀ keep slot, slot ∈ (s.retain keep).slots ↔ slot ∈ s.slots ∧ keep slot = true
  /-- Of the slots of a name the last one is found. -/
  lookup : ∀ name slot, s.lookup? name = some slot ↔
    ∃ before rest, s.slots = before ++ slot :: rest ∧ slot.symbol.name = name ∧
      ∀ other ∈ rest, other.symbol.name ≠ name
  lookup_none : ∀ name, s.lookup? name = none ↔ ∀ slot ∈ s.slots, slot.symbol.name ≠ name

theorem lookup?_eq_some_iff (s : Store) (name : String) (slot : Slot) :
    s.lookup? name = some slot ↔
      ∃ before rest, s.slots = before ++ slot :: rest ∧ slot.symbol.name = name ∧
        ∀ other ∈ rest, other.symbol.name ≠ name := by
  rw [lookup?, List.find?_eq_some_iff_append]
  constructor
  · rintro ⟨named, after, before, split, others⟩
    refine ⟨before.reverse, after.reverse, ?_, of_decide_eq_true named, fun other member => ?_⟩
    · simpa using congrArg List.reverse split
    · simpa using others other (List.mem_reverse.1 member)
  · rintro ⟨before, rest, split, named, others⟩
    refine ⟨decide_eq_true named, rest.reverse, before.reverse, ?_, fun other member => ?_⟩
    · simp [split]
    · simpa using others other (List.mem_reverse.1 member)

theorem assign?_eq_none_iff_ids (s : Store) (id : Nat) (x : Value) :
    s.assign? id x = none ↔ id ∉ s.ids := by
  rw [assign?_eq_none_iff, get?_eq_none_iff, ← contains_iff_ids, Bool.not_eq_true]

theorem orderly_of_nodup {s : Store} (distinct : s.ids.Nodup) : s.Orderly where
  upsert_here before slot rest split v x same := by
    have present : s.contains v.id = true := contains_iff.2 ⟨slot, by simp [split], same.symm⟩
    rw [slots_assign? (upsert_of_contains x present), same]
    exact map_setSlot_split distinct split x
  upsert_new v x absent := by
    rw [← contains_iff_ids, Bool.not_eq_true] at absent
    rw [upsert_of_not_contains x absent]
  assign_here before slot rest split x := by
    have present : s.contains slot.symbol.id = true := contains_iff.2 ⟨slot, by simp [split], rfl⟩
    rw [assign?, if_pos present, Option.map_some]
    exact congrArg some (map_setSlot_split distinct split x)
  assign_refused := assign?_eq_none_iff_ids s
  assign_absent id x absent := by
    rw [change, (assign?_eq_none_iff_ids s id x).2 absent, Option.getD_none]
  retain_order _ := List.filter_sublist
  mem_retain _ _ := List.mem_filter
  lookup := lookup?_eq_some_iff s
  lookup_none name := by
    simp [lookup?]

/-- However an empty store is changed, filing it gives its two parts as they are changed on their
own.  They stay in step and show the list of slots; the slots are in the order in which their
variables entered; and one more change is made to the slots that it is about, and to no others. -/
theorem filed_in_order (changes : List Change) :
    (after changes).filed = Filed.after changes ∧
    (Filed.after changes).InStep ∧ (Filed.after changes).Shows (after changes) ∧
    EnteredInTurn changes (after changes).symbols ∧ (after changes).Orderly := by
  have distinct := nodup_after changes
  refine ⟨filed_after changes, ?_, ?_, enteredInTurn_after changes, orderly_of_nodup distinct⟩
  · exact filed_after changes ▸ inStep_filed distinct
  · exact filed_after changes ▸ shows_filed distinct

def sampleOld : Variable := ⟨0, "a", .int, true, none⟩

def sampleStays : Variable := ⟨1, "b", .int, true, none⟩

def sampleAgain : Variable := ⟨0, "c", .int, true, none⟩

/-- The first variable loses its slot, and another one of its number gets one. -/
def sampleChanges : List Change :=
  [.upsert sampleOld (.int 1), .upsert sampleStays (.int 2), .retain (·.symbol.id = 1),
    .upsert sampleAgain (.int 3), .assign 1 (.int 4)]

/-- The new slot comes last.  The variable that had its number before is not found again: a value
given to it goes to the new slot. -/
theorem sampleChanges_in_order :
    (after sampleChanges).slots = [⟨sampleStays, .int 4⟩, ⟨sampleAgain, .int 3⟩] ∧
    (∃ i j, Entered sampleChanges sampleStays i ∧ Entered sampleChanges sampleAgain j ∧ i < j) ∧
    ((after sampleChanges).upsert sampleOld (.int 5)).slots =
      [⟨sampleStays, .int 4⟩, ⟨sampleAgain, .int 5⟩] := by
  have slots : (after sampleChanges).slots = [⟨sampleStays, .int 4⟩, ⟨sampleAgain, .int 3⟩] := rfl
  have symbols : (after sampleChanges).symbols = [sampleStays, sampleAgain] := rfl
  obtain ⟨-, -, -, inTurn, orderly⟩ := filed_in_order sampleChanges
  rw [symbols] at inTurn
  obtain ⟨i, stays⟩ := inTurn.entered sampleStays (by simp)
  obtain ⟨j, again⟩ := inTurn.entered sampleAgain (by simp)
  have order := List.rel_of_pairwise_cons inTurn.inOrder (List.mem_singleton.2 rfl) i j stays again
  exact ⟨slots, ⟨i, j, stays, again, order⟩,
    orderly.upsert_here [⟨sampleStays, .int 4⟩] ⟨sampleAgain, .int 3⟩ [] slots sampleOld (.int 5)
      rfl⟩

end Store

end ScriptLang
