/-
# ScriptLang.Proofs.Counting -- a `for` runs its body once for every integer below its bound

A `for` over the integers from `a` to `b` enters the code of its body `b - a` times
(not at all if `b` is not above `a`), with the variable at `a`, `a + 1` and so on, and
leaves it at `b` or, if that is higher, at `a` (`forTo_counts`).  The bound is
computed once and kept in a hidden variable that nothing else can change, and the
step to the next integer is only taken below it, so it does not wrap around.

A run is the list of the machines that it passes through (`Machine.Path`).  The code
of a body jumps to its own labels only, and assigns to the variables of the body only
(`Stmt.code_within`), so a run that enters it stays inside until it comes to its end,
and leaves the variable of the loop and its bound alone (`Path.through`).

Two things must be known of the loop besides: the bound does not assign to the
variable, and the body is made without jumps.
-/
import ScriptLang.Proofs.Ending

namespace ScriptLang

set_option autoImplicit false

open ScriptLang.Bound (Stmt Expr Supply labelIds labelId? loopCode belowBound increment boundVariable
  lower)

/-! ## What code does -/

namespace Bound

/-- Whether a statement of a flat program jumps to some labels, assigns to some variables, and
declares some variables, and does nothing else. -/
def Stmt.Within (L : Nat → Prop) (A D : Variable → Prop) : Stmt → Prop
  | .declare v init => D v ∧ ∀ u ∈ init.assigned, A u
  | .expr e => ∀ u ∈ e.assigned, A u
  | .goto target => L target.id
  | .branch target test _ => L target.id ∧ ∀ u ∈ test.assigned, A u
  | .label _ => True
  | .block _ | .ifThen .. | .ifElse .. | .whileLoop .. | .doWhile .. | .forTo .. => False

theorem Stmt.Within.mono {L L' : Nat → Prop} {A A' D D' : Variable → Prop} {s : Stmt}
    (within : s.Within L A D) (labels : ∀ l, L l → L' l) (assigned : ∀ u, A u → A' u)
    (declared : ∀ u, D u → D' u) : s.Within L' A' D' := by
  cases s with
  | declare v init => exact ⟨declared v within.1, fun u member => assigned u (within.2 u member)⟩
  | expr e => exact fun u member => assigned u (within u member)
  | goto target => exact labels _ within
  | branch target test when =>
      exact ⟨labels _ within.1, fun u member => assigned u (within.2 u member)⟩
  | label here => trivial
  | _ => exact within.elim

/-- Whether code does what its statement has to do: it jumps to labels that the statement took, it
assigns to variables that the statement assigns to or declares, and it declares those and hidden
ones. -/
def Stmt.Does (s : Stmt) (supply : Supply) : Stmt → Prop :=
  Stmt.Within (fun l => supply.label ≤ l ∧ l < (s.supplyAfter supply).label)
    (fun u => u ∈ s.assigned ∨ u ∈ s.declared)
    (fun u => u ∈ s.declared ∨ IsHidden supply.id (s.supplyAfter supply).id u)

/-- What the code of a part of a statement does. -/
theorem Stmt.Does.part {s part : Stmt} {supply supply' : Supply} {st : Stmt}
    (does : part.Does supply' st)
    (first : supply.label ≤ supply'.label ∧ supply.id ≤ supply'.id)
    (after : (part.supplyAfter supply').label ≤ (s.supplyAfter supply).label ∧
      (part.supplyAfter supply').id ≤ (s.supplyAfter supply).id)
    (assigned : part.assigned ⊆ s.assigned) (declared : part.declared ⊆ s.declared) :
    s.Does supply st := by
  refine does.mono (fun l between => by omega) ?_ ?_
  · exact fun u => Or.imp (@assigned u) (@declared u)
  · exact fun u => Or.imp (@declared u) fun hidden => hidden.mono first.2 after.2

/-- What the code of the first part of a statement does. -/
theorem Stmt.Does.first {s part : Stmt} {supply : Supply} {st : Stmt} (does : part.Does supply st)
    (after : (part.supplyAfter supply).label ≤ (s.supplyAfter supply).label ∧
      (part.supplyAfter supply).id ≤ (s.supplyAfter supply).id)
    (assigned : part.assigned ⊆ s.assigned) (declared : part.declared ⊆ s.declared) :
    s.Does supply st :=
  does.part ⟨Nat.le_refl _, Nat.le_refl _⟩ after assigned declared

theorem codeAll_does {body : List Stmt}
    (each : ∀ s ∈ body, ∀ supply, ∀ st ∈ s.code supply, s.Does supply st) (supply : Supply) :
    ∀ st ∈ codeAll body supply, (Stmt.block body).Does supply st := by
  induction body generalizing supply with
  | nil =>
      rw [codeAll_nil]
      exact fun st member => nomatch member
  | cons s ss ih =>
      rw [List.forall_mem_cons] at each
      have first := s.supply_le supply
      have after : (Stmt.block (s :: ss)).supplyAfter supply =
          supplyAfterAll ss (s.supplyAfter supply) := by
        rw [supplyAfter_block, supplyAfterAll_cons]
      intro st member
      rw [codeAll_cons, List.mem_append] at member
      rcases member with here | there
      · refine (each.1 supply st here).first ?_ ?_ ?_
        · rw [after]
          exact supply_le_all (fun s _ => s.supply_le) _
        · exact List.subset_append_left _ _
        · exact List.subset_append_left _ _
      · refine (ih each.2 _ st there).part first ?_ ?_ ?_
        · rw [after, supplyAfter_block]
          exact ⟨Nat.le_refl _, Nat.le_refl _⟩
        · exact List.subset_append_right _ _
        · exact List.subset_append_right _ _

theorem loopCode_within {L : Nat → Prop} {A D : Variable → Prop} {label : Nat} {test : Expr}
    {inner : List Stmt} (again : L label) (check : L (label + 1)) (tests : ∀ u ∈ test.assigned, A u)
    (within : ∀ st ∈ inner, st.Within L A D) :
    ∀ st ∈ loopCode label test inner, st.Within L A D := by
  intro st member
  simp only [loopCode, List.mem_cons, List.mem_append, List.not_mem_nil, or_false] at member
  rcases member with rfl | rfl | inside | rfl | rfl | rfl
  · exact check
  · trivial
  · exact within st inside
  · trivial
  · exact ⟨again, tests⟩
  · trivial

theorem ifElse_does (test : Expr) {yes no : Stmt} {supply : Supply}
    (yesDoes : ∀ st ∈ yes.code supply, yes.Does supply st)
    (noDoes : ∀ st ∈ no.code (yes.supplyAfter supply), no.Does (yes.supplyAfter supply) st) :
    ∀ st ∈ (Stmt.ifElse test yes no).code supply, (Stmt.ifElse test yes no).Does supply st := by
  have first := yes.supply_le supply
  have second := no.supply_le (yes.supplyAfter supply)
  have after := supplyAfter_ifElse test yes no supply
  dsimp only at after
  have assignedYes : yes.assigned ⊆ (Stmt.ifElse test yes no).assigned := fun u member => by
    simp [Stmt.assigned, member]
  have assignedNo : no.assigned ⊆ (Stmt.ifElse test yes no).assigned := fun u member => by
    simp [Stmt.assigned, member]
  intro st member
  simp only [code_ifElse, List.mem_cons, List.mem_append, List.not_mem_nil, or_false] at member
  rcases member with rfl | inYes | rfl | rfl | inNo | rfl
  · refine ⟨?_, fun u member => .inl (by simp [Stmt.assigned, member])⟩
    simp only [after]
    omega
  · refine (yesDoes st inYes).first ?_ assignedYes (List.subset_append_left _ _)
    simp only [after]
    omega
  · show supply.label ≤ _ ∧ _ < _
    simp only [after]
    omega
  · trivial
  · refine (noDoes st inNo).part first ?_ assignedNo (List.subset_append_right _ _)
    simp only [after]
    omega
  · trivial

theorem forTo_does (v : Variable) (low high : Expr) {body : Stmt} {supply : Supply}
    (bodyDoes : ∀ st ∈ body.code supply, body.Does supply st) :
    ∀ st ∈ (Stmt.forTo v low high body).code supply, (Stmt.forTo v low high body).Does supply st := by
  have le := body.supply_le supply
  have after := supplyAfter_forTo v low high body supply
  have inner : ∀ st ∈ body.code supply ++ [.expr (increment v)],
      (Stmt.forTo v low high body).Does supply st := by
    refine List.forall_mem_append.2 ⟨fun st inside => ?_, List.forall_mem_singleton.2 ?_⟩
    · refine (bodyDoes st inside).first ?_ (List.subset_append_right _ _) (List.subset_cons_self _ _)
      simp only [after]
      omega
    · intro u member
      rw [List.mem_singleton.1 member]
      exact .inr List.mem_cons_self
  rw [code_forTo]
  refine List.forall_mem_cons.2 ⟨⟨.inl List.mem_cons_self, fun u member => ?_⟩,
    List.forall_mem_cons.2 ⟨⟨.inr ⟨_, le.2, ?_, rfl⟩, fun u member => ?_⟩,
      loopCode_within ?_ ?_ (List.forall_mem_nil _) inner⟩⟩
  · exact .inl (by simp [Stmt.assigned, member])
  · rw [after]
    exact Nat.lt_succ_self _
  · exact .inl (by simp [Stmt.assigned, member])
  · simp only [after]
    omega
  · simp only [after]
    omega

/-- The code of a statement without jumps does what the statement has to do. -/
theorem Stmt.code_does (s : Stmt) (structured : s.isStructured = true) (supply : Supply) :
    ∀ st ∈ s.code supply, s.Does supply st := by
  induction s using Stmt.induction generalizing supply with
  | block body ih =>
      rw [code_block]
      exact codeAll_does
        (fun s member => ih s member (Stmt.areStructured_iff.1 structured s member)) supply
  | declare v init =>
      rw [code_declare]
      exact List.forall_mem_singleton.2 ⟨.inl List.mem_cons_self, fun u member => .inl member⟩
  | expr e =>
      rw [code_expr]
      exact List.forall_mem_singleton.2 fun u member => .inl member
  | ifThen test yes ih =>
      have le := yes.supply_le supply
      have after := supplyAfter_ifThen test yes supply
      intro st member
      simp only [code_ifThen, List.mem_cons, List.mem_append, List.not_mem_nil, or_false] at member
      rcases member with rfl | inside | rfl
      · refine ⟨?_, fun u member => .inl (List.mem_append.2 (.inl member))⟩
        rw [after]
        exact ⟨le.1, Nat.lt_succ_self _⟩
      · refine (ih structured supply st inside).first ?_
          (List.subset_append_right _ _) (List.Subset.refl _)
        rw [after]
        exact ⟨Nat.le_succ _, Nat.le_refl _⟩
      · trivial
  | ifElse test yes no ihYes ihNo =>
      simp only [Stmt.isStructured, Bool.and_eq_true] at structured
      exact ifElse_does test (ihYes structured.1 supply) (ihNo structured.2 _)
  | whileLoop test body ih =>
      have le := body.supply_le supply
      have after := supplyAfter_whileLoop test body supply
      rw [code_whileLoop]
      refine loopCode_within ?_ ?_ (fun u member => .inl (List.mem_append.2 (.inl member))) ?_
      · simp only [after]
        omega
      · simp only [after]
        omega
      · intro st inside
        refine (ih structured supply st inside).first ?_
          (List.subset_append_right _ _) (List.Subset.refl _)
        simp only [after]
        omega
  | doWhile body test ih =>
      have le := body.supply_le supply
      have after := supplyAfter_doWhile body test supply
      intro st member
      simp only [code_doWhile, List.mem_cons, List.mem_append, List.not_mem_nil, or_false] at member
      rcases member with rfl | inside | rfl
      · trivial
      · refine (ih structured supply st inside).first ?_
          (List.subset_append_left _ _) (List.Subset.refl _)
        rw [after]
        exact ⟨Nat.le_succ _, Nat.le_refl _⟩
      · refine ⟨?_, fun u member => .inl (List.mem_append.2 (.inr member))⟩
        rw [after]
        exact ⟨le.1, Nat.lt_succ_self _⟩
  | forTo v low high body ih => exact forTo_does v low high (ih structured supply)
  | goto target => cases structured
  | branch target test when => cases structured
  | label here => cases structured

/-- What a statement assigns to and declares is among its variables. -/
theorem Stmt.vars_of_written {s : Stmt} {u : Variable} (written : u ∈ s.assigned ∨ u ∈ s.declared) :
    u ∈ s.vars := by
  have used : ∀ {e : Expr}, u ∈ e.assigned → u ∈ e.vars := fun {e} => e.vars_of_assigned
  induction s using Stmt.induction with
  | block body ih =>
      rw [Stmt.assigned, Stmt.declared, Stmt.mem_assignedIn, Stmt.mem_declaredIn] at written
      rw [Stmt.vars, Stmt.mem_varsOf]
      obtain ⟨s, member, here⟩ | ⟨s, member, here⟩ := written
      · exact ⟨s, member, ih s member (.inl here)⟩
      · exact ⟨s, member, ih s member (.inr here)⟩
  | declare v init => grind [Stmt.assigned, Stmt.declared, Stmt.vars]
  | ifThen test yes ih => grind [Stmt.assigned, Stmt.declared, Stmt.vars]
  | ifElse test yes no ihYes ihNo => grind [Stmt.assigned, Stmt.declared, Stmt.vars]
  | whileLoop test body ih => grind [Stmt.assigned, Stmt.declared, Stmt.vars]
  | doWhile body test ih => grind [Stmt.assigned, Stmt.declared, Stmt.vars]
  | forTo v low high body ih => grind [Stmt.assigned, Stmt.declared, Stmt.vars]
  | expr e => grind [Stmt.assigned, Stmt.declared, Stmt.vars]
  | branch target test when => grind [Stmt.assigned, Stmt.declared, Stmt.vars]
  | goto target => grind [Stmt.assigned, Stmt.declared]
  | label here => grind [Stmt.assigned, Stmt.declared]

/-- The code of a statement jumps to labels of its own. -/
theorem Stmt.code_within (s : Stmt) (structured : s.isStructured = true) (supply : Supply) :
    ∀ st ∈ s.code supply, st.Within (· ∈ labelIds (s.code supply))
      (fun u => u ∈ s.assigned ∨ u ∈ s.declared)
      (fun u => u ∈ s.declared ∨ IsHidden supply.id (s.supplyAfter supply).id u) := by
  intro st member
  refine (s.code_does structured supply st member).mono (fun l between => ?_) (fun _ h => h)
    fun _ h => h
  exact (labelIds_code s structured supply).mem_iff.2 (mem_interval.2 between)

end Bound

/-! ## Expressions -/

namespace Bound

theorem Expr.test_get? (e : Expr) {id : Nat} (apart : ∀ u ∈ e.assigned, u.id ≠ id) (w : World) :
    (e.test w).2.store.get? id = w.store.get? id := by
  have tested : (e.test w).2.store = (e.eval w).2.store :=
    Outcome.andThen_store fun x w => by cases x <;> rfl
  rw [tested]
  exact e.eval_get? apart w

theorem Expr.declareAs_get? (e : Expr) {v : Variable} {id : Nat}
    (apart : ∀ u ∈ e.assigned, u.id ≠ id) (other : v.id ≠ id) (w : World) :
    (e.declareAs v w).2.store.get? id = w.store.get? id := by
  have kept := e.eval_get? apart w
  unfold Expr.declareAs
  match e.eval w, kept with
  | (.error f, w₁), kept => exact kept
  | (.ok x, w₁), kept =>
      show (w₁.store.upsert v x).get? id = _
      rw [Store.get?_upsert, if_neg other.symm]
      exact kept

end Bound

/-! ## Paths -/

namespace Image.Holds

variable {image : Image} {pos : Nat} {code : List Stmt}

theorem code_at (here : image.Holds pos code) {i : Nat} {st : Stmt} (at_ : code[i]? = some st) :
    image.code[pos + i]? = some st := by
  induction code generalizing pos i with
  | nil => cases at_
  | cons s rest ih =>
      cases i with
      | zero =>
          cases at_
          exact here.1
      | succ i =>
          rw [Nat.add_comm i, ← Nat.add_assoc]
          exact ih here.2.2 at_

/-- A jump to a label of code goes on after a statement of the code. -/
theorem target_inside (here : image.Holds pos code) {label : Label} (inside : label.id ∈ labelIds code) :
    ∃ index, image.target? label = some index ∧ pos < index ∧ index ≤ pos + code.length := by
  induction code generalizing pos with
  | nil => cases inside
  | cons s rest ih =>
      rw [List.length_cons]
      by_cases same : s = .label label
      · exact ⟨pos + 1, here.2.1 label same, by omega, by omega⟩
      · have later : label.id ∈ labelIds rest := by
          rw [labelIds, List.filterMap_cons] at inside
          cases s with
          | label other =>
              refine (List.mem_cons.1 inside).resolve_left fun equal => same ?_
              exact congrArg (fun id => Stmt.label ⟨id⟩) equal.symm
          | _ => exact inside
        obtain ⟨index, found, low, high⟩ := ih here.2.2 later
        exact ⟨index, found, by omega, by omega⟩

end Image.Holds

namespace Machine

variable {image : Image}

/-- Whether a run leads from one machine to another through some machines, each of which takes a
step. -/
inductive Path (image : Image) : List Machine → Machine → Machine → Prop where
  | here (m : Machine) : Path image [] m m
  | step {ms : List Machine} {m next last : Machine} (first : m.step image = .running next)
      (rest : Path image ms next last) : Path image (m :: ms) m last

theorem Path.one {m m' : Machine} (h : m.step image = .running m') : Path image [m] m m' :=
  .step h (.here m')

theorem Path.trans {ms ms' : List Machine} {m m' m'' : Machine} (first : Path image ms m m')
    (second : Path image ms' m' m'') : Path image (ms ++ ms') m m'' := by
  induction first with
  | here m => exact second
  | step start _ ih => exact .step start (ih second)

theorem Path.reaches {ms : List Machine} {m m' : Machine} (path : Path image ms m m') :
    Reaches image ms.length m m' := by
  induction path with
  | here m => exact .here m
  | step first _ ih => exact .step first ih

theorem of_settled {m m' : Machine} {o : Outcome Value} (step : m.settled o = .running m') :
    m'.pc = m.pc + 1 ∧ m'.world = o.2 := by
  match o, step with
  | (.error f, w), step => cases step
  | (.ok x, w), step =>
      cases step
      exact ⟨rfl, rfl⟩

theorem of_branched {m m' : Machine} {index : Nat} {when : Bool} {o : Outcome Bool}
    (step : m.branched index when o = .running m') :
    (m'.pc = index ∨ m'.pc = m.pc + 1) ∧ m'.world = o.2 := by
  match o, step with
  | (.error f, w), step => cases step
  | (.ok b, w), step =>
      cases step
      by_cases goes : b = when
      · exact ⟨.inl (if_pos goes), rfl⟩
      · exact ⟨.inr (if_neg goes), rfl⟩

/-- The machines that a run passes through in a number of steps, and the one that it comes to. -/
def trail (image : Image) : Nat → Machine → List Machine × Machine
  | 0, m => ([], m)
  | n + 1, m =>
      match m.step image with
      | .running next => (m :: (trail image n next).1, (trail image n next).2)
      | .stopped _ _ => ([], m)

theorem path_trail (n : Nat) (m : Machine) : Path image (m.trail image n).1 m (m.trail image n).2 := by
  induction n generalizing m with
  | zero => exact .here m
  | succ n ih =>
      unfold trail
      split
      · next next first => exact .step first (ih next)
      · exact .here m

theorem Path.trail_eq {ms : List Machine} {m m' : Machine} (path : Path image ms m m') :
    m.trail image ms.length = (ms, m') := by
  induction path with
  | here m => rfl
  | step first _ ih => simp only [List.length_cons, trail, first, ih]

theorem Path.length_lt {ms : List Machine} {m m' : Machine} (path : Path image ms m m') {n : Nat}
    (ended : (m.run image n).isSome = true) : ms.length < n := by
  by_contra longer
  obtain ⟨o, ran⟩ := Option.isSome_iff_exists.1 ended
  have more := run_add ran (ms.length - n)
  have short := run_of_reaches path.reaches 0
  rw [Nat.add_zero, show ms.length = n + (ms.length - n) by omega, more] at short
  cases short

/-- What all runs from a machine do, if one of them ends, can be seen on this one. -/
theorem completes_of_trail {n k entry exit : Nat} {m : Machine}
    (ended : (m.run image n).isSome = true)
    (all : ∀ i < n, (m.trail image i).2.pc = entry →
      ∃ j < k, ((m.trail image i).2.trail image j).2.pc = exit) :
    ∀ path m', Path image path m m' → m'.pc = entry →
      ∃ ms m'', Path image ms m' m'' ∧ m''.pc = exit := by
  intro path m' run starts
  have here := run.trail_eq
  obtain ⟨j, -, ends⟩ := all path.length (run.length_lt ended) (by rw [here]; exact starts)
  rw [here] at ends
  exact ⟨_, _, path_trail j m', ends⟩

section

variable {pos : Nat} {code : List Stmt} {A D : Variable → Prop} (here : image.Holds pos code)
  (within : ∀ st ∈ code, st.Within (· ∈ labelIds code) A D)

include here within

/-- A step inside of code goes on inside of it or at its end, and leaves variables alone that the
code neither assigns to nor declares. -/
theorem step_inside {m m' : Machine} (low : pos ≤ m.pc) (high : m.pc < pos + code.length)
    (step : m.step image = .running m') :
    pos < m'.pc ∧ m'.pc ≤ pos + code.length ∧
      ∀ id, (∀ u, A u → u.id ≠ id) → (∀ u, D u → u.id ≠ id) →
        m'.world.store.get? id = m.world.store.get? id := by
  have bound : m.pc - pos < code.length := Nat.sub_lt_left_of_lt_add low high
  have does := within _ (List.getElem_mem bound)
  have there := here.code_at (List.getElem?_eq_getElem bound)
  rw [Nat.add_sub_cancel' low] at there
  rw [step_of_code there] at step
  -- what follows depends on the statement alone, not on where it stands
  generalize code[m.pc - pos] = st at does step
  cases st with
  | declare v init =>
      rw [execute_declare] at step
      obtain ⟨next, world⟩ := of_settled step
      refine ⟨by omega, by omega, fun id unassigned undeclared => ?_⟩
      rw [world]
      exact init.declareAs_get? (fun u member => unassigned u (does.2 u member))
        (undeclared v does.1) m.world
  | expr e =>
      rw [execute_expr] at step
      obtain ⟨next, world⟩ := of_settled step
      refine ⟨by omega, by omega, fun id unassigned _ => ?_⟩
      rw [world]
      exact e.eval_get? (fun u member => unassigned u (does u member)) m.world
  | goto target =>
      obtain ⟨index, found, after, before⟩ := here.target_inside does
      rw [execute, jump, found] at step
      cases step
      exact ⟨after, before, fun _ _ _ => rfl⟩
  | branch target test when =>
      obtain ⟨index, found, after, before⟩ := here.target_inside does.1
      rw [execute_branch m found] at step
      obtain ⟨next, world⟩ := of_branched step
      refine ⟨by omega, by omega, fun id unassigned _ => ?_⟩
      rw [world]
      exact test.test_get? (fun u member => unassigned u (does.2 u member)) m.world
  | label name =>
      rw [execute, advance] at step
      cases step
      exact ⟨Nat.lt_succ_of_le low, high, fun _ _ _ => rfl⟩
  | _ => exact does.elim

/-- A run that comes to the end of code from inside of it has come there first without leaving it,
and without going back to its start. -/
theorem Path.through {ms : List Machine} {m m' : Machine} (path : Path image ms m m')
    (low : pos ≤ m.pc) (high : m.pc ≤ pos + code.length) (ends : m'.pc = pos + code.length) :
    ∃ inside exit, Path image inside m exit ∧ exit.pc = pos + code.length ∧
      (∀ q ∈ inside, pos ≤ q.pc ∧ q.pc < pos + code.length) ∧ (∀ q ∈ inside.tail, pos < q.pc) ∧
      ∀ id, (∀ u, A u → u.id ≠ id) → (∀ u, D u → u.id ≠ id) →
        exit.world.store.get? id = m.world.store.get? id := by
  induction path with
  | here m => exact ⟨[], m, .here m, ends, by simp, by simp, fun _ _ _ => rfl⟩
  | @step ms m next last first rest ih =>
      by_cases arrived : m.pc = pos + code.length
      · exact ⟨[], m, .here m, arrived, by simp, by simp, fun _ _ _ => rfl⟩
      · have inner : m.pc < pos + code.length := by omega
        obtain ⟨after, before, same⟩ := step_inside here within low inner first
        obtain ⟨inside, exit, run, exits, stays, onward, kept⟩ := ih (by omega) before ends
        refine ⟨m :: inside, exit, .step first run, exits,
          List.forall_mem_cons.2 ⟨⟨low, inner⟩, stays⟩, ?_, ?_⟩
        · cases run with
          | here => exact fun q member => nomatch member
          | step => exact List.forall_mem_cons.2 ⟨after, onward⟩
        · exact fun id unassigned undeclared =>
            (kept id unassigned undeclared).trans (same id unassigned undeclared)

end

/-- Machines that are never at a place. -/
theorem filter_pc_eq_nil {ms : List Machine} {pos : Nat} (apart : ∀ q ∈ ms, q.pc ≠ pos) :
    ms.filter (fun q => decide (q.pc = pos)) = [] :=
  List.filter_eq_nil_iff.2 fun q member => by simpa using apart q member

/-- A run through code passes its start once. -/
theorem Path.filter_start {pos : Nat} {inside : List Machine} {m exit : Machine}
    (path : Path image inside m exit) (starts : m.pc = pos) (onward : ∀ q ∈ inside.tail, pos < q.pc)
    (later : ∀ q ∈ inside, q.pc < exit.pc) :
    (inside ++ [exit]).filter (fun q => decide (q.pc = pos)) = [m] := by
  cases path with
  | here => simp [starts]
  | @step ms _ next _ first rest =>
      have after : pos < exit.pc := starts ▸ later m List.mem_cons_self
      have none : (ms ++ [exit]).filter (fun q => decide (q.pc = pos)) = [] := by
        refine filter_pc_eq_nil (List.forall_mem_append.2 ⟨fun q member => ?_, ?_⟩)
        · exact Nat.ne_of_gt (onward q member)
        · exact List.forall_mem_singleton.2 (Nat.ne_of_gt after)
      rw [List.cons_append, List.filter_cons, if_pos (decide_eq_true starts), none]

/-- The integer that a variable has on a machine. -/
def int? (v : Variable) (m : Machine) : Option Int :=
  match m.world.store.get? v.id with
  | some (.int x) => some x.toInt
  | _ => none

theorem int?_of_get? {v : Variable} {m : Machine} {x : Int64}
    (stored : m.world.store.get? v.id = some (.int x)) : m.int? v = some x.toInt := by
  rw [int?, stored]

end Machine

/-! ## Loops -/

open ScriptLang.Machine (Path)

theorem map_range_succ (a : Int) (n : Nat) :
    ((List.range (n + 1)).map fun i : Nat => some (a + i)) =
      some a :: (List.range n).map fun i : Nat => some (a + 1 + i) := by
  have shifted : ∀ i : Nat, a + 1 + i = a + (i + 1 : Nat) := fun i => by omega
  rw [List.range_succ_eq_map, List.map_cons, List.map_map]
  simp [Function.comp_def, shifted]

/-- Whether a path comes to the place `entry` once for every integer from `x` up to `b`, where a
variable has this integer; there is a next integer wherever it comes to the place `exit`; and at its
end the variable has the higher one of `x` and `b`. -/
structure Counts (v : Variable) (entry exit : Nat) (x b : Int64) (path : List Machine)
    (final : Machine) : Prop where
  entries : (path.filter fun m => m.pc = entry).map (Machine.int? v) =
    (List.range (b.toInt - x.toInt).toNat).map fun i : Nat => some (x.toInt + i)
  steps : ∀ m ∈ path, m.pc = exit → ∃ y : Int64,
    m.world.store.get? v.id = some (.int y) ∧ (y + 1).toInt = y.toInt + 1
  left : final.int? v = some (max x.toInt b.toInt)

/-- What is passed before the places does not count. -/
theorem Counts.after {v : Variable} {entry length : Nat} {x b : Int64} {before path : List Machine}
    {final : Machine} (counts : Counts v entry (entry + length) x b path final)
    (early : ∀ m ∈ before, m.pc < entry) :
    Counts v entry (entry + length) x b (before ++ path) final where
  entries := by
    have none : before.filter (fun m => decide (m.pc = entry)) = [] :=
      Machine.filter_pc_eq_nil fun m member => Nat.ne_of_lt (early m member)
    rw [List.filter_append, none]
    exact counts.entries
  steps := by
    refine List.forall_mem_append.2 ⟨fun m member leaves => ?_, counts.steps⟩
    have low := early m member
    omega
  left := counts.left

/-- Where the parts of a loop stand. -/
structure Image.LoopAt (image : Image) (pos label : Nat) (test onward : Expr) (inner : List Stmt) :
    Prop where
  enter : image.code[pos]? = some (.goto ⟨label + 1⟩)
  again : image.target? ⟨label⟩ = some (pos + 2)
  body : image.Holds (pos + 2) inner
  onward : image.code[pos + 2 + inner.length]? = some (.expr onward)
  check : image.code[pos + 3 + inner.length]? = some (.label ⟨label + 1⟩)
  toBranch : image.target? ⟨label + 1⟩ = some (pos + 4 + inner.length)
  branch : image.code[pos + 4 + inner.length]? = some (.branch ⟨label⟩ test true)
  done : image.code[pos + 5 + inner.length]? = some (.label ⟨label + 2⟩)

theorem Image.Holds.loopAt {image : Image} {pos label : Nat} {test onward : Expr} {inner : List Stmt}
    (here : image.Holds pos (loopCode label test (inner ++ [.expr onward]))) :
    image.LoopAt pos label test onward inner := by
  obtain ⟨enter, again, whole, check, toBranch, branch, done, -⟩ := here.whileAt
  obtain ⟨body, stepped, -⟩ := Image.holds_append.1 whole
  have length : pos + 2 + (inner ++ [Stmt.expr onward]).length = pos + 3 + inner.length := by
    rw [List.length_append, List.length_singleton]
    omega
  rw [length] at check toBranch branch done
  have next : pos + 3 + inner.length + 1 = pos + 4 + inner.length := by omega
  have last : pos + 3 + inner.length + 1 + 1 = pos + 5 + inner.length := by omega
  rw [last] at done
  rw [next] at toBranch branch
  exact ⟨enter, again, body, stepped, check, toBranch, branch, done⟩

section

variable {image : Image} {pos label : Nat} {v hidden : Variable} {inner : List Stmt}
  {A D : Variable → Prop} (loop : image.LoopAt pos label (belowBound v hidden) (increment v) inner)
  (within : ∀ st ∈ inner, st.Within (· ∈ labelIds inner) A D)
  (apart : v.id ≠ hidden.id) (unassigned : ∀ u, A u → u.id ≠ v.id ∧ u.id ≠ hidden.id)
  (undeclared : ∀ u, D u → u.id ≠ v.id ∧ u.id ≠ hidden.id)

include loop

/-- The step of the variable, and on to the check. -/
theorem loop_onward {m : Machine} {x : Int64} (starts : m.pc = pos + 2 + inner.length)
    (stored : m.world.store.get? v.id = some (.int x)) :
    ∃ between next, Path image [m, between] m next ∧ between.pc = pos + 3 + inner.length ∧
      next.pc = pos + 4 + inner.length ∧
      ∀ id, next.world.store.get? id =
        if id = v.id then some (.int (x + 1)) else m.world.store.get? id := by
  obtain ⟨t, assigned, gives⟩ := Bound.eval_increment stored
  have code := loop.onward
  rw [← starts] at code
  have first : m.step image = .running ⟨m.pc + 1, .int (x + 1), { m.world with store := t }⟩ := by
    rw [Machine.step_of_code code, Machine.execute_expr, gives]
    rfl
  have check : image.code[m.pc + 1]? = some (.label ⟨label + 1⟩) := by
    rw [← loop.check, starts]
    congr 1
    omega
  refine ⟨_, _, .step first (.one (Machine.step_label check)), ?_, ?_, Store.get?_assign? assigned⟩
  · dsimp only
    omega
  · dsimp only
    omega

/-- The check, where the variable and the bound are integers. -/
theorem loop_check {m : Machine} {x b : Int64} (starts : m.pc = pos + 4 + inner.length)
    (stored : m.world.store.get? v.id = some (.int x))
    (kept : m.world.store.get? hidden.id = some (.int b)) :
    ∃ next, m.step image = .running next ∧ next.world = m.world ∧
      next.pc = if x < b then pos + 2 else pos + 5 + inner.length := by
  have tests : (belowBound v hidden).test m.world = (.ok (decide (x < b)), m.world) :=
    (Bound.test_belowBound kept).trans (Bound.test_belowValue stored b)
  have code := loop.branch
  rw [← starts] at code
  have first : m.step image = m.branched (pos + 2) true (.ok (decide (x < b)), m.world) := by
    rw [Machine.step_of_code code, Machine.execute_branch m loop.again, tests]
  have next : m.pc + 1 = pos + 5 + inner.length := by omega
  refine ⟨_, first, rfl, ?_⟩
  simp only [decide_eq_true_eq, next]

/-- The check, where the variable has reached the bound. -/
theorem loop_leaves {m : Machine} {x b : Int64} (starts : m.pc = pos + 4 + inner.length)
    (stored : m.world.store.get? v.id = some (.int x))
    (kept : m.world.store.get? hidden.id = some (.int b)) (past : ¬ x < b) :
    ∃ between final, Path image [m, between] m final ∧ between.pc = pos + 5 + inner.length ∧
      final.pc = pos + 6 + inner.length ∧ final.world = m.world := by
  obtain ⟨between, first, world, place⟩ := loop_check loop starts stored kept
  rw [if_neg past] at place
  have code := loop.done
  rw [← place] at code
  refine ⟨between, _, .step first (.one (Machine.step_label code)), place, ?_, world⟩
  dsimp only
  omega

include within apart unassigned undeclared

/-- One round, from the start of the body to the check. -/
theorem loop_round {m m' : Machine} {ms : List Machine} {x b : Int64} (starts : m.pc = pos + 2)
    (stored : m.world.store.get? v.id = some (.int x))
    (kept : m.world.store.get? hidden.id = some (.int b)) (below : x < b)
    (completes : Path image ms m m') (ends : m'.pc = pos + 2 + inner.length) :
    ∃ path next, Path image path m next ∧ next.pc = pos + 4 + inner.length ∧
      next.world.store.get? v.id = some (.int (x + 1)) ∧
      next.world.store.get? hidden.id = some (.int b) ∧
      path.filter (fun q => decide (q.pc = pos + 2)) = [m] ∧ (∀ q ∈ path, pos + 1 < q.pc) ∧
      ∀ q ∈ path, q.pc = pos + 2 + inner.length → ∃ y : Int64,
        q.world.store.get? v.id = some (.int y) ∧ (y + 1).toInt = y.toInt + 1 := by
  obtain ⟨inside, exit, run, exits, stays, after, same⟩ :=
    completes.through loop.body within (by omega) (by omega) ends
  have storedExit : exit.world.store.get? v.id = some (.int x) :=
    (same v.id (fun u h => (unassigned u h).1) fun u h => (undeclared u h).1).trans stored
  have keptExit : exit.world.store.get? hidden.id = some (.int b) :=
    (same hidden.id (fun u h => (unassigned u h).2) fun u h => (undeclared u h).2).trans kept
  obtain ⟨between, next, onward, middle, checks, read⟩ := loop_onward loop exits storedExit
  refine ⟨inside ++ [exit, between], next, run.trans onward, checks, (read v.id).trans (if_pos rfl),
    (read hidden.id).trans ((if_neg apart.symm).trans keptExit), ?_, ?_, ?_⟩
  · have later : ∀ q ∈ inside, q.pc < exit.pc := fun q member => exits ▸ (stays q member).2
    have past : ¬ between.pc = pos + 2 := by omega
    rw [List.append_cons, List.filter_append, run.filter_start starts after later]
    simp [past]
  · intro q member
    simp only [List.mem_append, List.mem_cons, List.not_mem_nil, or_false] at member
    rcases member with member | rfl | rfl
    · have low := (stays q member).1
      omega
    · omega
    · omega
  · intro q member leaves
    simp only [List.mem_append, List.mem_cons, List.not_mem_nil, or_false] at member
    rcases member with member | rfl | rfl
    · have high := (stays q member).2
      omega
    · exact ⟨x, storedExit, toInt_add_one below⟩
    · omega

/-- The rounds from a check on, if every body that is entered comes to its end. -/
theorem loop_counts {m₀ : Machine}
    (completes : ∀ path m, Path image path m₀ m → m.pc = pos + 2 →
      ∃ ms m', Path image ms m m' ∧ m'.pc = pos + 2 + inner.length)
    {before : List Machine} {m : Machine} (reached : Path image before m₀ m) {x b : Int64}
    (checks : m.pc = pos + 4 + inner.length) (stored : m.world.store.get? v.id = some (.int x))
    (kept : m.world.store.get? hidden.id = some (.int b)) :
    ∃ path final, Path image path m final ∧ final.pc = pos + 6 + inner.length ∧
      (∀ q ∈ path, pos + 1 < q.pc) ∧
      Counts v (pos + 2) (pos + 2 + inner.length) x b path final := by
  induction distance : (b.toInt - x.toInt).toNat generalizing m before x with
  | zero =>
      have past : ¬ x < b := by
        rw [Int64.lt_iff_toInt_lt]
        omega
      obtain ⟨between, final, path, place, finishes, world⟩ := loop_leaves loop checks stored kept past
      have places : ∀ q ∈ [m, between], pos + 3 + inner.length < q.pc :=
        List.forall_mem_cons.2 ⟨by omega, List.forall_mem_singleton.2 (by omega)⟩
      refine ⟨[m, between], final, path, finishes, fun q member => ?_, ?_, fun q member leaves => ?_, ?_⟩
      · have high := places q member
        omega
      · have none : ¬ m.pc = pos + 2 ∧ ¬ between.pc = pos + 2 := by omega
        simp [distance, none]
      · have high := places q member
        omega
      · rw [Machine.int?_of_get? (world ▸ stored)]
        congr 1
        omega
  | succ rounds ih =>
      have below : x < b := by
        rw [Int64.lt_iff_toInt_lt]
        omega
      have onward := toInt_add_one below
      obtain ⟨entry, first, world, place⟩ := loop_check loop checks stored kept
      rw [if_pos below] at place
      rw [← world] at stored kept
      have entered := reached.trans (.one first)
      obtain ⟨ms, m', body, ends⟩ := completes _ _ entered place
      obtain ⟨round, m₁, run, checks₁, stored₁, kept₁, once, inside, steps⟩ :=
        loop_round loop within apart unassigned undeclared place stored kept below body ends
      obtain ⟨path, final, rest, finishes, stays, counts⟩ :=
        ih (entered.trans run) checks₁ stored₁ kept₁ (by omega)
      refine ⟨m :: (round ++ path), final, .step first (run.trans rest), finishes, ?_, ?_, ?_, ?_⟩
      · exact List.forall_mem_cons.2 ⟨by omega, List.forall_mem_append.2 ⟨inside, stays⟩⟩
      · have other : ¬ m.pc = pos + 2 := by omega
        have fewer : (b.toInt - (x + 1).toInt).toNat = rounds := by omega
        rw [List.filter_cons, if_neg (by simpa using other), List.filter_append, once,
          List.singleton_append, List.map_cons, counts.entries, fewer, onward, distance,
          map_range_succ, Machine.int?_of_get? stored]
      · refine List.forall_mem_cons.2 ⟨fun leaves => by omega, ?_⟩
        exact List.forall_mem_append.2 ⟨steps, counts.steps⟩
      · rw [counts.left]
        congr 1
        omega

end

/-! ## A `for` that stands alone -/

namespace Bound

/-- The place where the code of the body of a `for` ends, and its variable takes a step; the code starts
at place 4. -/
def forExit (body : Stmt) (nextId : Nat) : Nat := 4 + (body.code ⟨1, nextId⟩).length

/-- Whether a `for` that is lowered with hidden variables from `nextId` on, and runs in a world, comes
to its end, computes its bound once, and enters its body for the integers from `a` up to `b`. -/
def RunsFromTo (v : Variable) (low high : Expr) (body : Stmt) (nextId : Nat) (w : World)
    (a b : Int64) : Prop :=
  ∃ path final,
    Path (.load (lower (.forTo v low high body) nextId).program) path (.start w) final ∧
      runProgram (path.length + 1) (lower (.forTo v low high body) nextId).program w =
        some (.ok final.last, final.world) ∧
      (path.filter fun m => m.pc = 1).length = 1 ∧
      Counts v 4 (forExit body nextId) a b path final

/-- What has to be known of a `for` in any case: its variables have numbers below `nextId`; its body
neither assigns to its variable nor declares it; its bounds are `a` and, when the variable has this
value, `b`; and every run of its body comes to the end of the body. -/
structure PlainFor (v : Variable) (low high : Expr) (body : Stmt) (nextId : Nat) (w : World)
    (a b : Int64) : Prop where
  ids : ∀ u ∈ (Stmt.forTo v low high body).vars, u.id < nextId
  unassigned : ∀ u ∈ body.assigned, u.id ≠ v.id
  undeclared : ∀ u ∈ body.declared, u.id ≠ v.id
  bounds : ∃ w₁ w₂, low.eval w = (.ok (.int a), w₁) ∧
    high.eval { w₁ with store := w₁.store.upsert v (.int a) } = (.ok (.int b), w₂)
  completes : ∀ path m,
    Path (.load (lower (.forTo v low high body) nextId).program) path (.start w) m → m.pc = 4 →
      ∃ ms m', Path (.load (lower (.forTo v low high body) nextId).program) ms m m' ∧
        m'.pc = forExit body nextId

namespace PlainFor

variable {v : Variable} {low high : Expr} {body : Stmt} {nextId : Nat} {w : World} {a b : Int64}
  (plain : PlainFor v low high body nextId w a b)

include plain

/-- The hidden variable is not the variable of the loop. -/
theorem apart : v.id ≠ (boundVariable (body.supplyAfter ⟨1, nextId⟩).id).id := by
  have fresh : nextId ≤ (body.supplyAfter ⟨1, nextId⟩).id := (body.supply_le ⟨1, nextId⟩).2
  have below : v.id < nextId := plain.ids v List.mem_cons_self
  show v.id ≠ (body.supplyAfter ⟨1, nextId⟩).id
  omega

/-- The body assigns to neither of the two. -/
theorem assigns (u : Variable) (written : u ∈ body.assigned ∨ u ∈ body.declared) :
    u.id ≠ v.id ∧ u.id ≠ (boundVariable (body.supplyAfter ⟨1, nextId⟩).id).id := by
  have fresh : nextId ≤ (body.supplyAfter ⟨1, nextId⟩).id := (body.supply_le ⟨1, nextId⟩).2
  have below : u.id < nextId := plain.ids u (by simp [Stmt.vars, Stmt.vars_of_written written])
  refine ⟨written.elim (plain.unassigned u) (plain.undeclared u), ?_⟩
  show u.id ≠ (body.supplyAfter ⟨1, nextId⟩).id
  omega

/-- The code of the body declares neither of the two: the hidden variables of the body are numbered
after the variable of the loop and before the hidden variable of the loop. -/
theorem declares (u : Variable)
    (declared : u ∈ body.declared ∨ IsHidden nextId (body.supplyAfter ⟨1, nextId⟩).id u) :
    u.id ≠ v.id ∧ u.id ≠ (boundVariable (body.supplyAfter ⟨1, nextId⟩).id).id := by
  obtain written | ⟨id, above, before, rfl⟩ := declared
  · exact plain.assigns u (.inr written)
  · have below : v.id < nextId := plain.ids v List.mem_cons_self
    show id ≠ v.id ∧ id ≠ (body.supplyAfter ⟨1, nextId⟩).id
    omega

end PlainFor

theorem holds_forTo {body : Stmt} (structured : body.isStructured = true) (v : Variable)
    (low high : Expr) (nextId : Nat) :
    let after := body.supplyAfter ⟨1, nextId⟩
    let image := Image.load (lower (.forTo v low high body) nextId).program
    image.code[0]? = some (.declare v low) ∧
      image.code[1]? = some (.declare (boundVariable after.id) high) ∧
      image.LoopAt 2 after.label (belowBound v (boundVariable after.id)) (increment v)
        (body.code ⟨1, nextId⟩) ∧
      image.code[8 + (body.code ⟨1, nextId⟩).length]? = none := by
  have held := Image.holds_load (labelIds_lower_nodup (.forTo v low high body) structured nextId)
  have size : (lower (.forTo v low high body) nextId).program.length =
      8 + (body.code ⟨1, nextId⟩).length := by
    rw [lower_program, code_forTo]
    simp only [loopCode, List.length_cons, List.length_append, List.length_nil]
    omega
  have past : (Image.load (lower (.forTo v low high body) nextId).program).code[
      8 + (body.code ⟨1, nextId⟩).length]? = none := by
    rw [← size]
    simp [Image.load]
  rw [lower_program, code_forTo] at held past ⊢
  obtain ⟨first, -, second, -, loop⟩ := held
  exact ⟨first, second, loop.loopAt, past⟩

/-- Up to the first check, with the variable at the lower bound and the upper bound in the hidden
variable. -/
theorem forTo_enters {image : Image} {v hidden : Variable} {low high test onward : Expr}
    {inner : List Stmt} {label : Nat} (declareCode : image.code[0]? = some (.declare v low))
    (boundCode : image.code[1]? = some (.declare hidden high))
    (loop : image.LoopAt 2 label test onward inner) (apart : v.id ≠ hidden.id)
    (fixed : ∀ u ∈ high.assigned, u.id ≠ v.id) {w w₁ w₂ : World} {a b : Int64}
    (lowest : low.eval w = (.ok (.int a), w₁))
    (highest : high.eval { w₁ with store := w₁.store.upsert v (.int a) } = (.ok (.int b), w₂)) :
    ∃ m₁ m₂ m, Path image [.start w, m₁, m₂] (.start w) m ∧ m₁.pc = 1 ∧ m₂.pc = 2 ∧
      m.pc = 2 + 4 + inner.length ∧ m.world.store.get? v.id = some (.int a) ∧
      m.world.store.get? hidden.id = some (.int b) := by
  have first : (Machine.start w).step image =
      .running ⟨1, .int a, { w₁ with store := w₁.store.upsert v (.int a) }⟩ := by
    have code : image.code[(Machine.start w).pc]? = some (.declare v low) := declareCode
    rw [Machine.step_of_code code, Machine.execute_declare, Expr.declareAs]
    show (Machine.start w).settled ((low.eval w).andThen _) = _
    rw [lowest]
    rfl
  have second : Machine.step image ⟨1, .int a, { w₁ with store := w₁.store.upsert v (.int a) }⟩ =
      .running ⟨2, .int b, { w₂ with store := w₂.store.upsert hidden (.int b) }⟩ := by
    rw [Machine.step_of_code boundCode, Machine.execute_declare, Expr.declareAs, highest]
    rfl
  refine ⟨_, _, _, .step first (.step second (.one (Machine.step_goto loop.enter loop.toBranch))), rfl,
    rfl, rfl, ?_, ?_⟩
  · have unchanged := high.eval_get? fixed { w₁ with store := w₁.store.upsert v (.int a) }
    rw [highest] at unchanged
    show (w₂.store.upsert hidden (.int b)).get? v.id = _
    rw [Store.get?_upsert, if_neg apart]
    exact unchanged.trans ((Store.get?_upsert _ _ _ _).trans (if_pos rfl))
  · exact (Store.get?_upsert _ _ _ _).trans (if_pos rfl)

/-- A `for` whose body is made without jumps, and whose upper bound does not assign to its variable,
runs its body once for every integer from its lower bound up to its upper bound. -/
theorem forTo_counts {v : Variable} {low high : Expr} {body : Stmt} {nextId : Nat} {w : World}
    {a b : Int64} (plain : PlainFor v low high body nextId w a b)
    (structured : body.isStructured = true) (fixed : ∀ u ∈ high.assigned, u.id ≠ v.id) :
    RunsFromTo v low high body nextId w a b := by
  obtain ⟨w₁, w₂, lowest, highest⟩ := plain.bounds
  obtain ⟨declareCode, boundCode, loop, past⟩ := holds_forTo structured v low high nextId
  obtain ⟨m₁, m₂, m, enters, place₁, place₂, place, stored, kept⟩ :=
    forTo_enters declareCode boundCode loop plain.apart fixed lowest highest
  obtain ⟨path, final, run, finishes, later, counts⟩ :=
    loop_counts loop (body.code_within structured ⟨1, nextId⟩) plain.apart plain.assigns
      plain.declares plain.completes enters place stored kept
  have whole := enters.trans run
  have stops : final.step (.load (lower (.forTo v low high body) nextId).program) =
      .stopped (.ok final.last) final.world := by
    rw [Machine.step, finishes, show 2 + 6 + (body.code ⟨1, nextId⟩).length =
      8 + (body.code ⟨1, nextId⟩).length by omega, past]
  refine ⟨_, final, whole, ?_, ?_, ?_⟩
  · rw [runProgram, Machine.run_of_reaches whole.reaches, Machine.run, stops]
  · have once : path.filter (fun q => decide (q.pc = 1)) = [] := by
      refine Machine.filter_pc_eq_nil fun q member => ?_
      have high := later q member
      omega
    simp [once, place₁, place₂, Machine.start]
  · refine counts.after (List.forall_mem_cons.2 ⟨?_, List.forall_mem_cons.2 ⟨?_,
      List.forall_mem_singleton.2 ?_⟩⟩)
    · show 0 < 4
      omega
    · omega
    · omega

/-- A loop that never comes to its body as often as its bounds say. -/
theorem not_runsFromTo {v : Variable} {low high : Expr} {body : Stmt} {nextId : Nat} {w : World}
    {a b : Int64} {n : Nat}
    (ended : (runProgram n (lower (.forTo v low high body) nextId).program w).isSome = true)
    (other : ∀ i < n, (((Machine.start w).trail
      (.load (lower (.forTo v low high body) nextId).program) i).1.filter
        fun m => m.pc = 4).length ≠ (b.toInt - a.toInt).toNat) :
    ¬ RunsFromTo v low high body nextId w a b := by
  rintro ⟨path, final, run, -, -, counts⟩
  apply other path.length (run.length_lt ended)
  rw [run.trail_eq]
  simpa using congrArg List.length counts.entries

/-- A body that adds to the upper bound of its loop, by a loop of its own. -/
def countingBody : Stmt :=
  let n : Variable := ⟨0, "n", .int, true, none⟩
  let y : Variable := ⟨2, "y", .int, false, none⟩
  .block [.forTo y (.literal (.int 0)) (.literal (.int 2))
    (.expr (.assign n (.binary (.var n) ⟨.add, .int, .int, .int⟩ (.var y))))]

/-- A world in which the upper bound is at first the highest integer. -/
def countingWorld : World :=
  { World.start [] (.ofSeed 0) with
    store := ⟨[⟨⟨0, "n", .int, true, none⟩, .int 9223372036854775807⟩]⟩ }

/-- The two integers before the highest one, while the variable that was the upper bound wraps
around. -/
theorem countingBody_counts :
    PlainFor ⟨1, "x", .int, false, none⟩ (.literal (.int 9223372036854775805))
        (.var ⟨0, "n", .int, true, none⟩) countingBody 3 countingWorld 9223372036854775805
        9223372036854775807 ∧
      RunsFromTo ⟨1, "x", .int, false, none⟩ (.literal (.int 9223372036854775805))
        (.var ⟨0, "n", .int, true, none⟩) countingBody 3 countingWorld 9223372036854775805
        9223372036854775807 := by
  have plain : PlainFor ⟨1, "x", .int, false, none⟩ (.literal (.int 9223372036854775805))
      (.var ⟨0, "n", .int, true, none⟩) countingBody 3 countingWorld 9223372036854775805
      9223372036854775807 :=
    ⟨by decide, by decide, by decide, ⟨_, _, rfl, rfl⟩,
      Machine.completes_of_trail (n := 60) (k := 30) (by decide +kernel) (by decide +kernel)⟩
  exact ⟨plain, forTo_counts plain rfl (by decide)⟩

/-- A `for` need not count so: an upper bound that assigns to the variable moves it, and a jump to a
label of the body that is numbered as one of the loop goes on inside of the body. -/
theorem forTo_not_counts :
    (let x : Variable := ⟨0, "x", .int, false, none⟩
      let high : Expr :=
        .binary (.assign x (.literal (.int 3))) ⟨.add, .int, .int, .int⟩ (.literal (.int 2))
      let body : Stmt := .expr (.call Builtin.print.function [.var x])
      PlainFor x (.literal (.int 0)) high body 1 (.start [] (.ofSeed 0)) 0 5 ∧
        ¬ RunsFromTo x (.literal (.int 0)) high body 1 (.start [] (.ofSeed 0)) 0 5) ∧
    (let x : Variable := ⟨0, "x", .int, false, none⟩
      let body : Stmt := .block [.expr (.call Builtin.print.function [.literal (.str "a")]),
        .label ⟨1⟩, .expr (.call Builtin.print.function [.var x])]
      PlainFor x (.literal (.int 0)) (.literal (.int 3)) body 1 (.start [] (.ofSeed 0)) 0 3 ∧
        ¬ RunsFromTo x (.literal (.int 0)) (.literal (.int 3)) body 1 (.start [] (.ofSeed 0)) 0 3) := by
  refine ⟨⟨⟨by decide, by decide, by decide, ⟨_, _, rfl, rfl⟩, ?_⟩, ?_⟩,
    ⟨⟨by decide, by decide, by decide, ⟨_, _, rfl, rfl⟩, ?_⟩, ?_⟩⟩
  · exact Machine.completes_of_trail (n := 40) (k := 5) (by decide +kernel) (by decide +kernel)
  · exact not_runsFromTo (n := 40) (by decide +kernel) (by decide +kernel)
  · exact Machine.completes_of_trail (n := 40) (k := 5) (by decide +kernel) (by decide +kernel)
  · exact not_runsFromTo (n := 40) (by decide +kernel) (by decide +kernel)

end Bound

end ScriptLang
