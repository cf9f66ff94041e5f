/-
# ScriptLang.Proofs.Suggesting -- the nearest name is suggested

The distance of two names is defined by rows of numbers.  What the numbers mean is said
with edits alone: `Edits n xs ys` holds when `n` insertions, deletions and substitutions
of one character turn `xs` into `ys`, and the distance is the least such `n`
(`distance_isLeast`).  The bridge is `cost`, the recurrence on the first characters.  It
is reached by edits (`edits_cost`), and one edit changes it by at most one
(`Edit.cost_le`), wherever the edit is made.

A row is the list of the costs of one prefix of the first name against every prefix of
the second (`row_cost`).  Prefixes grow at their ends and `cost` recurs at the front, so
the prefixes are taken reversed; edits do not mind (`Edits.reverse`).

A suggestion is the first of the nearest visible names (`FirstNearest`), a notion that
does not mention the limit or the order in which the names are read.
-/
import Mathlib.Algebra.Order.Floor.Semiring
import Mathlib.Data.List.Induction
import Mathlib.Data.Rat.Floor
import Mathlib.Order.Bounds.Basic
import ScriptLang.Text.Spelling

namespace ScriptLang.Text

set_option autoImplicit false

/-! ## Edits -/

/-- One character is put in, taken out or replaced. -/
inductive Edit : List Char → List Char → Prop
  | insert (before after : List Char) (c : Char) : Edit (before ++ after) (before ++ c :: after)
  | delete (before after : List Char) (c : Char) : Edit (before ++ c :: after) (before ++ after)
  | substitute (before after : List Char) (c d : Char) :
      Edit (before ++ c :: after) (before ++ d :: after)

/-- So many edits, one after the other. -/
inductive Edits : Nat → List Char → List Char → Prop
  | none (xs : List Char) : Edits 0 xs xs
  | step {n : Nat} {xs ys zs : List Char} (first : Edit xs ys) (rest : Edits n ys zs) :
      Edits (n + 1) xs zs

section

variable {n m : Nat} {xs ys zs : List Char}

theorem Edit.cons (c : Char) (h : Edit xs ys) : Edit (c :: xs) (c :: ys) := by
  cases h with
  | insert before after d => exact .insert (c :: before) after d
  | delete before after d => exact .delete (c :: before) after d
  | substitute before after d e => exact .substitute (c :: before) after d e

theorem Edit.symm (h : Edit xs ys) : Edit ys xs := by
  cases h with
  | insert before after c => exact .delete before after c
  | delete before after c => exact .insert before after c
  | substitute before after c d => exact .substitute before after d c

theorem Edit.reverse (h : Edit xs ys) : Edit xs.reverse ys.reverse := by
  cases h with
  | insert before after c =>
      simpa using Edit.insert after.reverse before.reverse c
  | delete before after c =>
      simpa using Edit.delete after.reverse before.reverse c
  | substitute before after c d =>
      simpa using Edit.substitute after.reverse before.reverse c d

theorem Edits.cons (c : Char) (h : Edits n xs ys) : Edits n (c :: xs) (c :: ys) := by
  induction h with
  | none xs => exact .none _
  | step first _ ih => exact .step (first.cons c) ih

theorem Edits.trans (h : Edits n xs ys) (next : Edits m ys zs) : Edits (n + m) xs zs := by
  induction h with
  | none _ => rwa [Nat.zero_add]
  | @step n _ _ _ first _ ih =>
      rw [Nat.add_right_comm]
      exact .step first (ih next)

theorem Edits.symm (h : Edits n xs ys) : Edits n ys xs := by
  induction h with
  | none xs => exact .none xs
  | step first _ ih => exact ih.trans (.step first.symm (.none _))

theorem Edits.reverse (h : Edits n xs ys) : Edits n xs.reverse ys.reverse := by
  induction h with
  | none xs => exact .none _
  | step first _ ih => exact .step first.reverse ih

theorem edits_reverse_iff : Edits n xs.reverse ys.reverse ↔ Edits n xs ys :=
  ⟨fun h => by simpa using h.reverse, Edits.reverse⟩

theorem edits_zero_iff : Edits 0 xs ys ↔ xs = ys := by
  constructor
  · rintro ⟨⟩
    rfl
  · rintro rfl
    exact .none xs

end

/-! ## The recurrence -/

/-- The cost of a first character that may have to be replaced. -/
def mismatch (a b : Char) : Nat := if a = b then 0 else 1

/-- The least number of edits, by what is done about the first characters. -/
def cost : List Char → List Char → Nat
  | [], ys => ys.length
  | x :: xs, [] => (x :: xs).length
  | x :: xs, y :: ys =>
      min (min (cost xs ys + mismatch x y) (cost (x :: xs) ys + 1)) (cost xs (y :: ys) + 1)
termination_by xs ys => xs.length + ys.length

theorem mismatch_le (a b : Char) : mismatch a b ≤ 1 := by
  unfold mismatch
  split <;> decide

theorem mismatch_self (a : Char) : mismatch a a = 0 := if_pos rfl

section

variable (x y : Char) (xs ys zs : List Char)

theorem cost_nil_left : cost [] ys = ys.length := by rw [cost]

theorem cost_nil_right : cost xs [] = xs.length := by
  cases xs with
  | nil => rw [cost]
  | cons x xs => rw [cost]

theorem cost_cons_cons : cost (x :: xs) (y :: ys) =
    min (min (cost xs ys + mismatch x y) (cost (x :: xs) ys + 1)) (cost xs (y :: ys) + 1) := by
  rw [cost]

theorem cost_self : cost xs xs = 0 := by
  induction xs with
  | nil => rw [cost_nil_left, List.length_nil]
  | cons x xs ih =>
      have kept : cost xs xs + mismatch x x = 0 := by rw [ih, mismatch_self]
      rw [cost_cons_cons, kept, Nat.zero_min, Nat.zero_min]

theorem edits_of_nil : Edits ys.length [] ys := by
  induction ys with
  | nil => exact .none []
  | cons y ys ih => exact ih.trans (.step (.insert [] ys y) (.none _))

theorem edits_cost : Edits (cost xs ys) xs ys := by
  induction xs, ys using cost.induct with
  | case1 ys => exact (cost_nil_left ys).symm ▸ edits_of_nil ys
  | case2 x xs => exact (cost_nil_right (x :: xs)).symm ▸ (edits_of_nil (x :: xs)).symm
  | case3 x xs y ys both right left =>
      have kept : Edits (cost xs ys + mismatch x y) (x :: xs) (y :: ys) := by
        by_cases same : x = y
        · subst same
          rw [mismatch_self]
          exact both.cons x
        · have one : mismatch x y = 1 := if_neg same
          rw [one]
          exact (both.cons x).trans (.step (.substitute [] ys x y) (.none _))
      have inserted : Edits (cost (x :: xs) ys + 1) (x :: xs) (y :: ys) :=
        right.trans (.step (.insert [] ys y) (.none _))
      have deleted : Edits (cost xs (y :: ys) + 1) (x :: xs) (y :: ys) :=
        .step (.delete [] xs x) left
      rw [cost_cons_cons]
      rcases min_choice (min (cost xs ys + mismatch x y) (cost (x :: xs) ys + 1))
        (cost xs (y :: ys) + 1) with least | least
      · rw [least]
        rcases min_choice (cost xs ys + mismatch x y) (cost (x :: xs) ys + 1) with least | least
        · exact least.symm ▸ kept
        · exact least.symm ▸ inserted
      · exact least.symm ▸ deleted

/-! ## One edit changes the cost by at most one -/

theorem cost_cons_left_le : cost (x :: xs) zs ≤ cost xs zs + 1 := by
  cases zs with
  | nil => rw [cost_nil_right, cost_nil_right, List.length_cons]
  | cons z zs => rw [cost_cons_cons]; exact Nat.min_le_right _ _

theorem cost_cons_right_le : cost xs (y :: zs) ≤ cost xs zs + 1 := by
  cases xs with
  | nil => rw [cost_nil_left, cost_nil_left, List.length_cons]
  | cons x xs =>
      rw [cost_cons_cons]
      exact (Nat.min_le_left _ _).trans (Nat.min_le_right _ _)

theorem le_cost_cons_left : cost xs zs ≤ cost (x :: xs) zs + 1 := by
  induction zs with
  | nil => rw [cost_nil_right, cost_nil_right, List.length_cons]; omega
  | cons z zs ih =>
      have grown := cost_cons_right_le z xs zs
      rw [cost_cons_cons]
      omega

theorem cost_substitute_le : cost (x :: xs) zs ≤ cost (y :: xs) zs + 1 := by
  induction zs with
  | nil => rw [cost_nil_right, cost_nil_right, List.length_cons, List.length_cons]; omega
  | cons z zs ih =>
      have replaced := mismatch_le x z
      rw [cost_cons_cons, cost_cons_cons]
      omega

end

section

variable {n : Nat} {xs ys zs : List Char}

/-- What holds of two texts holds of them behind the same first character. -/
theorem cost_cons_mono (h : ∀ zs, cost xs zs ≤ cost ys zs + 1) (c : Char) (zs : List Char) :
    cost (c :: xs) zs ≤ cost (c :: ys) zs + 1 := by
  induction zs with
  | nil =>
      have lengths := h []
      rw [cost_nil_right, cost_nil_right] at lengths
      rw [cost_nil_right, cost_nil_right, List.length_cons, List.length_cons]
      omega
  | cons z zs ih =>
      have both := h zs
      have left := h (z :: zs)
      rw [cost_cons_cons, cost_cons_cons]
      omega

theorem cost_append_mono (h : ∀ zs, cost xs zs ≤ cost ys zs + 1) (before zs : List Char) :
    cost (before ++ xs) zs ≤ cost (before ++ ys) zs + 1 := by
  induction before generalizing zs with
  | nil => exact h zs
  | cons c before ih => exact cost_cons_mono ih c zs

theorem Edit.cost_le (h : Edit xs ys) (zs : List Char) : cost xs zs ≤ cost ys zs + 1 := by
  cases h with
  | insert before after c =>
      exact cost_append_mono (le_cost_cons_left c after) before zs
  | delete before after c =>
      exact cost_append_mono (cost_cons_left_le c after) before zs
  | substitute before after c d =>
      exact cost_append_mono (cost_substitute_le c d after) before zs

theorem Edits.cost_le (h : Edits n xs ys) : cost xs ys ≤ n := by
  induction h with
  | none xs => exact (cost_self xs).le
  | step first _ ih => exact (first.cost_le _).trans (Nat.succ_le_succ ih)

theorem cost_isLeast (xs ys : List Char) : IsLeast {n | Edits n xs ys} (cost xs ys) :=
  ⟨edits_cost xs ys, fun _ h => Edits.cost_le h⟩

end

/-! ## Rows -/

/-- The costs of `as` against `done` grown by one more character of the rest at a time. -/
def costs (as : List Char) : List Char → List Char → List Nat
  | _, [] => []
  | done, b :: bs => cost as (b :: done) :: costs as (b :: done) bs

theorem advanceCells_costs (a : Char) (as done bs : List Char) :
    advanceCells a (cost as done) (cost (a :: as) done) bs (costs as done bs) =
      costs (a :: as) done bs := by
  induction bs generalizing done with
  | nil => rfl
  | cons b bs ih =>
      have cell : min (min (cost as done + if a = b then 0 else 1) (cost (a :: as) done + 1))
          (cost as (b :: done) + 1) = cost (a :: as) (b :: done) :=
        (cost_cons_cons a b as done).symm
      simp only [costs, advanceCells, cell]
      rw [ih]

/-- The row of a prefix, read backwards. -/
theorem advance_costs (a : Char) (as bs : List Char) :
    advance bs (cost as [] :: costs as [] bs) a = cost (a :: as) [] :: costs (a :: as) [] bs := by
  have first : cost as [] + 1 = cost (a :: as) [] := by
    rw [cost_nil_right, cost_nil_right, List.length_cons]
  simp only [advance, first]
  rw [advanceCells_costs]

theorem foldl_advance (as front bs : List Char) :
    as.foldl (advance bs) (cost front [] :: costs front [] bs) =
      cost (as.reverse ++ front) [] :: costs (as.reverse ++ front) [] bs := by
  induction as generalizing front with
  | nil => rfl
  | cons a as ih =>
      rw [List.foldl_cons, advance_costs, ih, List.reverse_cons, List.append_assoc,
        List.singleton_append]

theorem costs_nil (done bs : List Char) :
    costs [] done bs = List.range' (done.length + 1) bs.length := by
  induction bs generalizing done with
  | nil => rfl
  | cons b bs ih =>
      rw [costs, ih, cost_nil_left, List.length_cons, List.length_cons, List.range'_succ]

theorem row_cost (as bs : List Char) :
    distanceRow as bs = cost as.reverse [] :: costs as.reverse [] bs := by
  have start : List.range (bs.length + 1) = cost [] [] :: costs [] [] bs := by
    rw [costs_nil, cost_nil_left, List.length_nil, List.range_eq_range', List.range'_succ]
  rw [distanceRow, start, foldl_advance, List.append_nil]

theorem getLastD_costs (as done bs : List Char) :
    (cost as done :: costs as done bs).getLastD 0 = cost as (bs.reverse ++ done) := by
  induction bs generalizing done with
  | nil => rfl
  | cons b bs ih =>
      have last := ih (b :: done)
      rw [List.reverse_cons, List.append_assoc, List.singleton_append, ← last, costs]
      rfl

theorem distance_eq_cost (a b : String) :
    distance a b = cost a.toList.reverse b.toList.reverse := by
  rw [distance, row_cost, getLastD_costs, List.append_nil]

/-! ## The distance -/

theorem distance_isLeast (a b : String) :
    IsLeast {n | Edits n a.toList b.toList} (distance a b) := by
  have least := cost_isLeast a.toList.reverse b.toList.reverse
  simp only [edits_reverse_iff] at least
  rw [distance_eq_cost]
  exact least

theorem distance_eq_zero (a b : String) : distance a b = 0 ↔ a = b := by
  have least := distance_isLeast a b
  constructor
  · intro none
    have same : Edits 0 a.toList b.toList := none ▸ least.1
    exact String.toList_inj.1 (edits_zero_iff.1 same)
  · rintro rfl
    exact Nat.le_zero.1 (least.2 (Edits.none a.toList))

theorem distance_comm (a b : String) : distance a b = distance b a :=
  Nat.le_antisymm ((distance_isLeast a b).2 (distance_isLeast b a).1.symm)
    ((distance_isLeast b a).2 (distance_isLeast a b).1.symm)

theorem distance_triangle (a b c : String) : distance a c ≤ distance a b + distance b c :=
  (distance_isLeast a c).2 ((distance_isLeast a b).1.trans (distance_isLeast b c).1)

/-! ## The first of the nearest names -/

/-- No visible name other than the name itself is nearer, and none before is as near. -/
structure FirstNearest (name : String) (visible : List String) (found : String) : Prop where
  other : found ≠ name
  first : ∃ before after, visible = before ++ found :: after ∧
    (∀ c ∈ before, c ≠ name → distance name found < distance name c) ∧
    ∀ c ∈ after, c ≠ name → distance name found ≤ distance name c

namespace FirstNearest

variable {name found c : String} {visible : List String}

theorem mem (h : FirstNearest name visible found) : found ∈ visible := by
  obtain ⟨before, after, rfl, -⟩ := h.first
  exact List.mem_append_right before List.mem_cons_self

theorem le (h : FirstNearest name visible found) (member : c ∈ visible) (ne : c ≠ name) :
    distance name found ≤ distance name c := by
  obtain ⟨before, after, rfl, above, notBelow⟩ := h.first
  rcases List.mem_append.1 member with early | late
  · exact (above c early ne).le
  · rcases List.mem_cons.1 late with rfl | late
    · exact le_rfl
    · exact notBelow c late ne

theorem unique {other : String} (h : FirstNearest name visible found)
    (h' : FirstNearest name visible other) : found = other := by
  have near := h.le h'.mem h'.other
  have near' := h'.le h.mem h.other
  obtain ⟨before, after, split, above, -⟩ := h.first
  obtain ⟨before', after', split', above', -⟩ := h'.first
  rcases List.append_eq_append_iff.1 (split.symm.trans split') with
    ⟨gap, longer, rest⟩ | ⟨gap, longer, rest⟩
  · cases gap with
    | nil => exact (List.cons.inj rest).1
    | cons g gap =>
        obtain ⟨rfl, -⟩ := List.cons.inj rest
        have early : found ∈ before' := longer ▸ List.mem_append_right before List.mem_cons_self
        exact absurd near (Nat.not_le.2 (above' found early h.other))
  · cases gap with
    | nil => exact (List.cons.inj rest).1.symm
    | cons g gap =>
        obtain ⟨rfl, -⟩ := List.cons.inj rest
        have early : other ∈ before := longer ▸ List.mem_append_right before' List.mem_cons_self
        exact absurd near' (Nat.not_le.2 (above other early h'.other))

/-- A name that is read later and is not nearer changes nothing. -/
theorem stays (h : FirstNearest name visible found)
    (far : c ≠ name → distance name found ≤ distance name c) :
    FirstNearest name (visible ++ [c]) found := by
  obtain ⟨before, after, rfl, above, notBelow⟩ := h.first
  have later : ∀ d ∈ after ++ [c], d ≠ name → distance name found ≤ distance name d := by
    intro d member
    rcases List.mem_append.1 member with early | last
    · exact notBelow d early
    · exact List.mem_singleton.1 last ▸ far
  exact ⟨h.other, before, after ++ [c], List.append_assoc before (found :: after) [c],
    above, later⟩

theorem last (ne : c ≠ name)
    (above : ∀ d ∈ visible, d ≠ name → distance name c < distance name d) :
    FirstNearest name (visible ++ [c]) c :=
  ⟨ne, visible, [], rfl, above, nofun⟩

end FirstNearest

/-- What is known after some names are read: the nearest of them, if it is near enough. -/
inductive Leads (name : String) (limit : Nat) (seen : List String) :
    Option (Nat × String) → Prop
  | nobody (far : ∀ c ∈ seen, c ≠ name → limit < distance name c) : Leads name limit seen none
  | somebody {found : String} (nearest : FirstNearest name seen found)
      (close : distance name found ≤ limit) :
      Leads name limit seen (some (distance name found, found))

section

variable {name c : String} {limit : Nat} {seen : List String} {best : Option (Nat × String)}

/-- A name that is not considered leaves the lead as it is. -/
theorem Leads.skip (h : Leads name limit seen best)
    (far : c ≠ name → limit < distance name c) : Leads name limit (seen ++ [c]) best := by
  cases h with
  | nobody others =>
      refine .nobody fun d member => ?_
      rcases List.mem_append.1 member with early | last
      · exact others d early
      · exact List.mem_singleton.1 last ▸ far
  | somebody nearest close =>
      exact .somebody (nearest.stays fun ne => close.trans (far ne).le) close

theorem Leads.take (h : Leads name limit seen best) (ne : c ≠ name)
    (close : distance name c ≤ limit) :
    Leads name limit (seen ++ [c]) (nearer best (distance name c, c)) := by
  cases h with
  | nobody others =>
      exact .somebody (.last ne fun d member other =>
        close.trans_lt (others d member other)) close
  | @somebody found nearest near =>
      by_cases less : distance name c < distance name found
      · have new : nearer (some (distance name found, found)) (distance name c, c) =
            some (distance name c, c) := if_pos less
        rw [new]
        exact .somebody (.last ne fun d member other =>
          less.trans_le (nearest.le member other)) close
      · have old : nearer (some (distance name found, found)) (distance name c, c) =
            some (distance name found, found) := if_neg less
        rw [old]
        exact .somebody (nearest.stays fun _ => Nat.not_lt.1 less) near

/-- The candidates in the order in which they are compared. -/
def lead (name : String) (limit : Nat) (visible : List String) : Option (Nat × String) :=
  (((visible.filter (· ≠ name)).map fun c => (distance name c, c)).filter
    (·.1 ≤ limit)).foldl nearer none

theorem lead_concat (name c : String) (limit : Nat) (seen : List String) :
    lead name limit (seen ++ [c]) =
      if c ≠ name ∧ distance name c ≤ limit then
        nearer (lead name limit seen) (distance name c, c)
      else lead name limit seen := by
  unfold lead
  by_cases ne : c = name <;> by_cases close : distance name c ≤ limit <;>
    simp [List.filter_append, ne, close]

theorem leads_lead (name : String) (limit : Nat) (visible : List String) :
    Leads name limit visible (lead name limit visible) := by
  induction visible using List.reverseRecOn with
  | nil => exact .nobody nofun
  | append_singleton seen c ih =>
      rw [lead_concat]
      split
      next near => exact ih.take near.1 near.2
      next far => exact ih.skip fun ne => Nat.not_le.1 fun close => far ⟨ne, close⟩

end

/-- What the search can come to. -/
theorem closest_cases (name : String) (visible : List String) (limit : Nat) :
    (closest name visible limit = none ∧ ∀ c ∈ visible, c ≠ name → limit < distance name c) ∨
      ∃ found, closest name visible limit = some found ∧ FirstNearest name visible found ∧
        distance name found ≤ limit := by
  have answer : closest name visible limit = (lead name limit visible).map (·.2) := rfl
  have known := leads_lead name limit visible
  rw [answer]
  generalize lead name limit visible = best at known ⊢
  cases known with
  | nobody far => exact .inl ⟨rfl, far⟩
  | somebody nearest close => exact .inr ⟨_, rfl, nearest, close⟩

theorem closest_eq_some_iff (name : String) (visible : List String) (limit : Nat)
    (found : String) : closest name visible limit = some found ↔
      FirstNearest name visible found ∧ distance name found ≤ limit := by
  rcases closest_cases name visible limit with ⟨none, far⟩ | ⟨best, some, nearest, close⟩
  · rw [none]
    refine ⟨nofun, fun ⟨nearest, close⟩ => ?_⟩
    exact absurd close (Nat.not_le.2 (far found nearest.mem nearest.other))
  · rw [some, Option.some_inj]
    constructor
    · rintro rfl
      exact ⟨nearest, close⟩
    · rintro ⟨nearest', -⟩
      exact nearest.unique nearest'

theorem closest_eq_none_iff (name : String) (visible : List String) (limit : Nat) :
    closest name visible limit = none ↔
      ∀ c ∈ visible, c ≠ name → limit < distance name c := by
  rcases closest_cases name visible limit with ⟨none, far⟩ | ⟨best, some, nearest, close⟩
  · exact iff_of_true none far
  · rw [some]
    refine ⟨nofun, fun far => ?_⟩
    exact absurd close (Nat.not_le.2 (far best nearest.mem nearest.other))

theorem tolerance_eq (name : String) :
    tolerance name = max 1 (min 3 ⌈(name.length / 3 : ℚ)⌉₊) := by
  have rounded : ⌈(name.length / 3 : ℚ)⌉₊ = (name.length + 2) / 3 := by
    refine eq_of_forall_ge_iff fun n => ?_
    rw [Nat.ceil_le, div_le_iff₀ (by norm_num)]
    constructor
    · intro h
      have whole : name.length ≤ n * 3 := by exact_mod_cast h
      omega
    · intro h
      have whole : name.length ≤ n * 3 := by omega
      exact_mod_cast whole
  rw [tolerance, rounded]

/-- The distance counts the fewest edits and is a metric.  What is suggested for a name is the
first of the nearest visible names, when it is within the tolerance, and nothing otherwise. -/
theorem suggest_optimal :
    (∀ a b : String, IsLeast {n | Edits n a.toList b.toList} (distance a b)) ∧
    (∀ a b : String, distance a b = 0 ↔ a = b) ∧
    (∀ a b : String, distance a b = distance b a) ∧
    (∀ a b c : String, distance a c ≤ distance a b + distance b c) ∧
    ∀ (name : String) (visible : List String),
      tolerance name = max 1 (min 3 ⌈(name.length / 3 : ℚ)⌉₊) ∧
      (∀ note, suggest name visible = some note ↔
        ∃ found, FirstNearest name visible found ∧ distance name found ≤ tolerance name ∧
          note = "did you mean `" ++ found ++ "`?") ∧
      (suggest name visible = none ↔
        ∀ c ∈ visible, c ≠ name → tolerance name < distance name c) := by
  refine ⟨distance_isLeast, distance_eq_zero, distance_comm, distance_triangle,
    fun name visible => ⟨tolerance_eq name, fun note => ?_, ?_⟩⟩
  · rw [suggest, Option.map_eq_some_iff]
    constructor
    · rintro ⟨found, near, rfl⟩
      obtain ⟨nearest, close⟩ := (closest_eq_some_iff name visible _ found).1 near
      exact ⟨found, nearest, close, rfl⟩
    · rintro ⟨found, nearest, close, rfl⟩
      exact ⟨found, (closest_eq_some_iff name visible _ found).2 ⟨nearest, close⟩, rfl⟩
  · rw [suggest, Option.map_eq_none_iff]
    exact closest_eq_none_iff name visible (tolerance name)

end ScriptLang.Text
