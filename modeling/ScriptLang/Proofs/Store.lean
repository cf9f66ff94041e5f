/-
# ScriptLang.Proofs.Store -- what reading a store finds after a change

A store is read through `get?`.  Giving a variable a value changes what is read
at its number and nothing else (`get?_assign?`, `get?_upsert`); the variables
themselves, in their order, change only by a new one at the end
(`symbols_upsert`).

`Store.view` is a store seen through a renaming of some of its variables: the
other slots are gone, and the ones that stay are in the same order.  Reading and
writing a variable that stays is the same through the view
(`get?_view`, `assign?_view`, `upsert_view`).
-/
import ScriptLang.Run.Store

namespace ScriptLang

set_option autoImplicit false

/-! ## Variables by number -/

namespace Variable

variable {vs : List Variable}

theorem any_id {id : Nat} : vs.any (·.id = id) = true ↔ ∃ v ∈ vs, v.id = id := by
  simp

theorem any_of_mem {v : Variable} (member : v ∈ vs) : vs.any (·.id = v.id) = true :=
  any_id.2 ⟨v, member, rfl⟩

theorem lt_of_any {c id : Nat} (low : ∀ v ∈ vs, v.id < c) (listed : vs.any (·.id = id) = true) :
    id < c := by
  obtain ⟨v, member, rfl⟩ := any_id.1 listed
  exact low v member

end Variable

/-! ## Reading and writing -/

namespace Store

/-- The variables that have a value, in order. -/
def symbols (s : Store) : List Variable := s.slots.map (·.symbol)

theorem contains_iff {s : Store} {id : Nat} :
    s.contains id = true ↔ ∃ slot ∈ s.slots, slot.symbol.id = id := by
  simp [contains]

theorem contains_iff_symbols {s : Store} {id : Nat} :
    s.contains id = true ↔ ∃ v ∈ s.symbols, v.id = id := by
  rw [contains_iff, symbols]
  constructor
  · rintro ⟨slot, member, same⟩
    exact ⟨slot.symbol, List.mem_map_of_mem member, same⟩
  · rintro ⟨v, member, same⟩
    obtain ⟨slot, stored, rfl⟩ := List.mem_map.1 member
    exact ⟨slot, stored, same⟩

theorem get?_eq_none_iff {s : Store} {id : Nat} : s.get? id = none ↔ s.contains id = false := by
  simp [get?, contains]

theorem contains_of_get? {s : Store} {id : Nat} {x : Value} (h : s.get? id = some x) :
    s.contains id = true := by
  cases hc : s.contains id with
  | true => rfl
  | false => rw [get?_eq_none_iff.2 hc] at h; cases h

theorem exists_get? {s : Store} {id : Nat} (h : s.contains id = true) : ∃ x, s.get? id = some x := by
  cases hg : s.get? id with
  | some x => exact ⟨x, rfl⟩
  | none => rw [get?_eq_none_iff.1 hg] at h; cases h

@[simp] theorem setSlot_symbol (id : Nat) (x : Value) (slot : Slot) :
    (setSlot id x slot).symbol = slot.symbol := by
  unfold setSlot; split <;> rfl

/-- An assignment is refused exactly if the variable has no value. -/
theorem assign?_eq_none_iff {s : Store} {id : Nat} {x : Value} :
    s.assign? id x = none ↔ s.get? id = none := by
  rw [get?_eq_none_iff]
  simp [assign?]

theorem slots_assign? {s t : Store} {id : Nat} {x : Value} (h : s.assign? id x = some t) :
    t.slots = s.slots.map (setSlot id x) := by
  unfold assign? at h
  split at h
  · cases h; rfl
  · cases h

theorem contains_of_assign? {s t : Store} {id : Nat} {x : Value} (h : s.assign? id x = some t) :
    s.contains id = true := by
  unfold assign? at h
  split at h
  · assumption
  · cases h

theorem find?_setSlot (slots : List Slot) (id i : Nat) (x : Value) :
    ((slots.map (setSlot id x)).find? (·.symbol.id = i)).map (·.value) =
      (slots.find? (·.symbol.id = i)).map fun slot => if i = id then x else slot.value := by
  induction slots with
  | nil => rfl
  | cons slot rest ih =>
      simp only [List.map_cons, List.find?_cons, setSlot_symbol]
      by_cases here : slot.symbol.id = i
      · simp only [here, decide_true, Option.map_some]
        by_cases same : i = id
        · simp [setSlot, here, same]
        · simp [setSlot, here, same]
      · simpa only [here, decide_false] using ih

theorem get?_assign? {s t : Store} {id : Nat} {x : Value} (h : s.assign? id x = some t) (i : Nat) :
    t.get? i = if i = id then some x else s.get? i := by
  have read : t.get? i = (s.slots.find? (·.symbol.id = i)).map
      fun slot => if i = id then x else slot.value := by
    rw [get?, slots_assign? h, find?_setSlot]
  rw [read]
  by_cases same : i = id
  · obtain ⟨y, hy⟩ := exists_get? (contains_of_assign? h)
    subst same
    unfold get? at hy
    cases hf : s.slots.find? (·.symbol.id = i) with
    | none => rw [hf] at hy; cases hy
    | some slot => simp
  · simp only [same, if_false, get?]

/-- An assignment keeps the variables and their order. -/
theorem symbols_assign? {s t : Store} {id : Nat} {x : Value} (h : s.assign? id x = some t) :
    t.symbols = s.symbols := by
  simp [symbols, slots_assign? h]

theorem upsert_of_contains {s : Store} {v : Variable} (x : Value) (h : s.contains v.id = true) :
    s.assign? v.id x = some (s.upsert v x) := by
  simp [upsert, assign?, h]

theorem upsert_of_not_contains {s : Store} {v : Variable} (x : Value)
    (h : s.contains v.id = false) : s.upsert v x = ⟨s.slots ++ [⟨v, x⟩]⟩ := by
  simp [upsert, assign?, h]

theorem get?_upsert (s : Store) (v : Variable) (x : Value) (i : Nat) :
    (s.upsert v x).get? i = if i = v.id then some x else s.get? i := by
  cases hc : s.contains v.id with
  | true => exact get?_assign? (upsert_of_contains x hc) i
  | false =>
      rw [upsert_of_not_contains x hc]
      by_cases same : i = v.id
      · have absent : s.slots.find? (·.symbol.id = v.id) = none := by
          have := get?_eq_none_iff.2 hc
          simpa only [get?, Option.map_eq_none_iff] using this
        simp [get?, same, List.find?_append, absent]
      · have other : ¬ v.id = i := fun h => same h.symm
        simp [get?, same, List.find?_append, other]

/-- A variable that gets its first value comes last; one that has a value stays where it is, and
stays the variable it was. -/
theorem symbols_upsert (s : Store) (v : Variable) (x : Value) :
    (s.upsert v x).symbols = if s.contains v.id then s.symbols else s.symbols ++ [v] := by
  cases hc : s.contains v.id with
  | true => rw [symbols_assign? (upsert_of_contains x hc)]; rfl
  | false => simp [upsert_of_not_contains x hc, symbols]

theorem get?_retain (s : Store) (keep : Nat → Bool) (id : Nat) :
    (s.retain fun slot => keep slot.symbol.id).get? id = if keep id then s.get? id else none := by
  unfold retain get?
  induction s.slots with
  | nil => simp
  | cons slot rest ih =>
      by_cases here : slot.symbol.id = id
      · subst here
        cases hk : keep slot.symbol.id with
        | true => simp [hk]
        | false => simpa [hk] using ih
      · cases hk : keep slot.symbol.id with
        | true => simpa [hk, here] using ih
        | false => simpa [hk, here] using ih

end Store

/-! ## Stores seen through a renaming -/

/-- Other numbers and names for variables. -/
structure Renaming where
  id : Nat → Nat
  name : String → String

namespace Renaming

/-- The renaming that changes nothing. -/
def refl : Renaming := ⟨fun i => i, fun n => n⟩

/-- A variable under its new number and name. -/
def var (ρ : Renaming) (v : Variable) : Variable :=
  { v with id := ρ.id v.id, name := ρ.name v.name }

@[simp] theorem var_id (ρ : Renaming) (v : Variable) : (ρ.var v).id = ρ.id v.id := rfl
@[simp] theorem var_name (ρ : Renaming) (v : Variable) : (ρ.var v).name = ρ.name v.name := rfl
@[simp] theorem var_ty (ρ : Renaming) (v : Variable) : (ρ.var v).ty = v.ty := rfl
@[simp] theorem var_mutable (ρ : Renaming) (v : Variable) : (ρ.var v).mutable = v.mutable := rfl
@[simp] theorem var_refl (v : Variable) : refl.var v = v := rfl

/-- A slot under the new number and name of its variable. -/
def slot (ρ : Renaming) (s : Slot) : Slot := { s with symbol := ρ.var s.symbol }

/-- Whether numbers that are kept stay apart. -/
def Injects (ρ : Renaming) (keep : Nat → Bool) : Prop :=
  ∀ i j, keep i = true → keep j = true → ρ.id i = ρ.id j → i = j

theorem injects_refl (keep : Nat → Bool) : refl.Injects keep := fun _ _ _ _ same => same

end Renaming

namespace Store

/-- The slots of the kept numbers, under their new numbers and names. -/
def view (ρ : Renaming) (keep : Nat → Bool) (s : Store) : Store :=
  ⟨(s.slots.filter fun slot => keep slot.symbol.id).map ρ.slot⟩

theorem view_refl (keep : Nat → Bool) (s : Store) :
    s.view .refl keep = s.retain fun slot => keep slot.symbol.id := by
  have same : Renaming.refl.slot = id := rfl
  simp [view, retain, same]

variable {ρ : Renaming} {keep : Nat → Bool}

theorem contains_view (inj : ρ.Injects keep) (s : Store) {id : Nat} (kept : keep id = true) :
    (s.view ρ keep).contains (ρ.id id) = s.contains id := by
  rw [Bool.eq_iff_iff, contains_iff, contains_iff, view]
  simp only [List.mem_map, List.mem_filter]
  constructor
  · rintro ⟨_, ⟨slot, ⟨member, stays⟩, rfl⟩, same⟩
    exact ⟨slot, member, inj _ _ stays kept same⟩
  · rintro ⟨slot, member, rfl⟩
    exact ⟨ρ.slot slot, ⟨slot, ⟨member, kept⟩, rfl⟩, rfl⟩

theorem get?_view (inj : ρ.Injects keep) (s : Store) {id : Nat} (kept : keep id = true) :
    (s.view ρ keep).get? (ρ.id id) = s.get? id := by
  unfold view get?
  induction s.slots with
  | nil => rfl
  | cons slot rest ih =>
      cases stays : keep slot.symbol.id with
      | false =>
          have other : ¬ slot.symbol.id = id := fun same => by rw [same, kept] at stays; cases stays
          simpa only [List.filter_cons, stays, Bool.false_eq_true, if_false, List.find?_cons, other,
            decide_false] using ih
      | true =>
          simp only [List.filter_cons, stays, if_true, List.map_cons, List.find?_cons]
          by_cases here : slot.symbol.id = id
          · simp [here, Renaming.slot]
          · have other : ¬ ρ.id slot.symbol.id = ρ.id id := fun same => here (inj _ _ stays kept same)
            simpa only [Renaming.slot, Renaming.var_id, here, other, decide_false] using ih

theorem setSlot_view (inj : ρ.Injects keep) (slots : List Slot) {id : Nat} (kept : keep id = true)
    (x : Value) :
    ((slots.filter fun slot => keep slot.symbol.id).map ρ.slot).map (setSlot (ρ.id id) x) =
      ((slots.map (setSlot id x)).filter fun slot => keep slot.symbol.id).map ρ.slot := by
  induction slots with
  | nil => rfl
  | cons slot rest ih =>
      cases stays : keep slot.symbol.id with
      | false => simpa [stays] using ih
      | true =>
          have same : setSlot (ρ.id id) x (ρ.slot slot) = ρ.slot (setSlot id x slot) := by
            unfold setSlot
            by_cases here : slot.symbol.id = id
            · simp [here, Renaming.slot]
            · have other : ¬ ρ.id slot.symbol.id = ρ.id id := fun e => here (inj _ _ stays kept e)
              simp [here, other, Renaming.slot]
          simpa [stays, same] using ih

theorem assign?_view (inj : ρ.Injects keep) (s : Store) {id : Nat} (kept : keep id = true)
    (x : Value) :
    (s.view ρ keep).assign? (ρ.id id) x = (s.assign? id x).map (view ρ keep) := by
  unfold assign?
  rw [contains_view inj s kept]
  split
  · exact congrArg (fun slots => some (Store.mk slots)) (setSlot_view inj s.slots kept x)
  · rfl

theorem upsert_view (inj : ρ.Injects keep) (s : Store) {v : Variable} (kept : keep v.id = true)
    (x : Value) : (s.view ρ keep).upsert (ρ.var v) x = (s.upsert v x).view ρ keep := by
  unfold upsert
  rw [Renaming.var_id, assign?_view inj s kept]
  cases s.assign? v.id x with
  | some t => rfl
  | none => simp [view, kept, Renaming.slot]

/-- A slot outside of the view is out of sight: changing it changes nothing there. -/
theorem view_upsert_of_not_kept (s : Store) {v : Variable} (dropped : keep v.id = false)
    (x : Value) : (s.upsert v x).view ρ keep = s.view ρ keep := by
  cases hc : s.contains v.id with
  | false => simp [upsert_of_not_contains x hc, view, dropped]
  | true =>
      unfold view
      rw [slots_assign? (upsert_of_contains x hc)]
      congr 1
      induction s.slots with
      | nil => rfl
      | cons slot rest ih =>
          cases stays : keep slot.symbol.id with
          | false => simpa [stays] using ih
          | true =>
              have other : ¬ slot.symbol.id = v.id := fun e => by rw [e, dropped] at stays; cases stays
              simpa [stays, setSlot, other] using ih

end Store

end ScriptLang
