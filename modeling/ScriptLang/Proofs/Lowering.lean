/-
# ScriptLang.Proofs.Lowering -- a lowered program does what the statement does

The machine on the flat code of a statement is compared with the statement run
as it is nested.  The two differ in the hidden variables that keep the bounds of
`for` loops: these have numbers from a counter `c` on, and the nested run is in
the world below `c` (`World.below`), where they do not show.

`Follows` compares what the machine does from a place of the code with what a
nested run gives: a fault is a fault, a value takes the machine to the end of the
code, and a loop that uses up its rounds keeps the machine busy for as many steps.
The last clause is what makes the two end together.  `Stmt.code_follows` proves it
for every statement; hidden variables of enclosing loops have larger numbers than
those of the loops inside, and the code inside leaves them alone (`Leaves`).
-/
import ScriptLang.Proofs.Evaluation
import ScriptLang.Proofs.MachineRun
import ScriptLang.Proofs.Renaming

namespace ScriptLang

set_option autoImplicit false

open ScriptLang.Bound (Stmt Expr Supply)

/-! ## The world below a number -/

/-- The store without the variables from a number on. -/
def Store.below (c : Nat) (s : Store) : Store := s.retain fun slot => decide (slot.symbol.id < c)

/-- The world without the variables from a number on. -/
def World.below (c : Nat) (w : World) : World := { w with store := w.store.below c }

/-- An outcome without the variables from a number on. -/
def Outcome.below {α : Type} (c : Nat) (o : Outcome α) : Outcome α := (o.1, o.2.below c)

theorem World.seen_below (c : Nat) (w : World) :
    World.Seen .refl (fun id => decide (id < c)) "" w (w.below c) where
  store := (Store.view_refl (fun id => decide (id < c)) w.store).symm
  input := rfl
  output := (String.empty_append).symm
  sink := fun written text => by rw [String.empty_append]; rfl
  draws := rfl

theorem World.below_eq_of_seen {c : Nat} {w w' : World}
    (seen : World.Seen .refl (fun id => decide (id < c)) "" w w') : w' = w.below c := by
  obtain ⟨store, input, output, sink, draws⟩ := seen
  have same : w'.sink = w.sink := by
    have accepts : w'.sink.accept = w.sink.accept := by
      funext written text
      rw [sink, String.empty_append]
    exact congrArg Sink.mk accepts
  cases w'
  simp_all [World.below, Store.below, Store.view_refl]

theorem Renaming.result_refl {α : Type} (result : Except Fault α) :
    Renaming.refl.result result = result := by
  cases result with
  | ok a => rfl
  | error f => cases f <;> rfl

theorem Outcome.below_eq_of_seen {α : Type} {c : Nat} {o o' : Outcome α}
    (seen : o.Seen .refl (fun id => decide (id < c)) "" o') : o' = o.below c := by
  obtain ⟨result, worlds⟩ := seen
  rw [Renaming.result_refl] at result
  exact Prod.ext result (World.below_eq_of_seen worlds)

/-- Whether all variables of an expression have numbers below `c`. -/
def Bound.Expr.IdsBelow (c : Nat) (e : Expr) : Prop := ∀ v ∈ e.vars, v.id < c

/-- Whether all variables of a statement have numbers below `c`. -/
def Bound.Stmt.IdsBelow (c : Nat) (s : Stmt) : Prop := ∀ v ∈ s.vars, v.id < c

namespace Bound.Expr

variable {c : Nat} {e : Expr}

theorem IdsBelow.kept (ids : e.IdsBelow c) :
    ∀ v ∈ e.vars, (fun id => decide (id < c)) v.id = true :=
  fun v member => decide_eq_true (ids v member)

theorem eval_below (ids : e.IdsBelow c) (w : World) : e.eval (w.below c) = (e.eval w).below c := by
  have seen := e.eval_seen (Renaming.injects_refl _) ids.kept (w.seen_below c)
  rw [rename_refl] at seen
  exact Outcome.below_eq_of_seen seen

theorem test_below (ids : e.IdsBelow c) (w : World) : e.test (w.below c) = (e.test w).below c := by
  have seen := e.test_seen (Renaming.injects_refl _) ids.kept (w.seen_below c)
  rw [rename_refl] at seen
  exact Outcome.below_eq_of_seen seen

theorem declareAs_below (ids : e.IdsBelow c) {v : Variable} (low : v.id < c) (w : World) :
    e.declareAs v (w.below c) = (e.declareAs v w).below c := by
  have seen := e.declareAs_seen (Renaming.injects_refl _) ids.kept (decide_eq_true low)
    (w.seen_below c)
  rw [rename_refl, Renaming.var_refl] at seen
  exact Outcome.below_eq_of_seen seen

end Bound.Expr

/-- A hidden variable does not show below. -/
theorem World.below_upsert {c : Nat} {v : Variable} (high : c ≤ v.id) (x : Value) (w : World) :
    World.below c { w with store := w.store.upsert v x } = w.below c := by
  have same : (w.store.upsert v x).view .refl (fun id => decide (id < c)) =
      w.store.view .refl fun id => decide (id < c) :=
    Store.view_upsert_of_not_kept w.store (decide_eq_false (by omega)) x
  rw [Store.view_refl, Store.view_refl] at same
  simp only [World.below, Store.below, same]

/-! ## Variables that are left alone -/

/-- Whether the variables from a number on have the same values in two worlds. -/
def World.Leaves (limit : Nat) (w w' : World) : Prop :=
  ∀ id, limit ≤ id → w'.store.get? id = w.store.get? id

namespace World.Leaves

variable {limit : Nat} {w w' w'' : World}

theorem refl (limit : Nat) (w : World) : Leaves limit w w := fun _ _ => rfl

theorem trans (first : Leaves limit w w') (second : Leaves limit w' w'') : Leaves limit w w'' :=
  fun id high => (second id high).trans (first id high)

theorem mono {more : Nat} (h : Leaves limit w w') (le : limit ≤ more) : Leaves more w w' :=
  fun id high => h id (Nat.le_trans le high)

theorem upsert (h : Leaves limit w w') {v : Variable} (low : v.id < limit) (x : Value) :
    Leaves limit w { w' with store := w'.store.upsert v x } := by
  intro id high
  rw [← h id high, Store.get?_upsert, if_neg (by omega)]

end World.Leaves

namespace Bound

/-- An expression leaves alone the variables that it does not mention. -/
theorem Expr.eval_leaves {limit : Nat} (e : Expr) (ids : e.IdsBelow limit) (w : World) :
    w.Leaves limit (e.eval w).2 := by
  intro id high
  refine e.eval_get? ?_ w
  intro v member same
  have low := ids v (e.vars_of_assigned member)
  omega

theorem Expr.test_leaves {limit : Nat} (e : Expr) (ids : e.IdsBelow limit) (w : World) :
    w.Leaves limit (e.test w).2 := by
  have left := e.eval_leaves ids w
  unfold Expr.test
  match e.eval w, left with
  | (.error f, w'), left => exact left
  | (.ok x, w'), left => cases x <;> exact left

theorem Expr.declareAs_leaves {limit : Nat} (e : Expr) (ids : e.IdsBelow limit) {v : Variable}
    (low : v.id < limit) (w : World) : w.Leaves limit (e.declareAs v w).2 := by
  have left := e.eval_leaves ids w
  unfold Expr.declareAs
  match e.eval w, left with
  | (.error f, w'), left => exact left
  | (.ok x, w'), left => exact left.upsert low x

end Bound

/-! ## Following a nested run -/

/-- Whether the machine does what a nested run in the world below gives: it stops with the same
fault, or comes to the exit with the same value and leaves alone the variables from `limit` on, or
is still running after `fuel` steps. -/
def Follows (image : Image) (c limit exit fuel : Nat) (m : Machine) : Option (Outcome Value) → Prop
  | none => m.run image fuel = none
  | some (.error f, w) => ∃ n w', m.run image n = some (.error f, w') ∧ w'.below c = w
  | some (.ok last, w) =>
      ∃ n w', m.Reaches image n ⟨exit, last, w'⟩ ∧ w'.below c = w ∧ m.world.Leaves limit w'

theorem followedBy_ok (run : Option (Outcome Value)) :
    followedBy run (fun last w => some (.ok last, w)) = run := by
  match run with
  | none => rfl
  | some (.ok last, w) => rfl
  | some (.error f, w) => rfl

namespace Follows

variable {image : Image} {c limit exit fuel : Nat} {m : Machine} {r : Option (Outcome Value)}

/-- Some steps first. -/
theorem after {m' : Machine} {n more : Nat} (reach : Machine.Reaches image n m m')
    (left : m.world.Leaves limit m'.world) (enough : more ≤ n + fuel)
    (h : Follows image c limit exit fuel m' r) : Follows image c limit exit more m r := by
  match r, h with
  | none, h =>
      have long : m.run image (n + fuel) = none := (Machine.run_of_reaches reach fuel).trans h
      exact Machine.run_eq_none_of_le long enough
  | some (.error f, w), ⟨k, w', stopped, same⟩ =>
      exact ⟨n + k, w', (Machine.run_of_reaches reach k).trans stopped, same⟩
  | some (.ok last, w), ⟨k, w', reach', same, left'⟩ =>
      exact ⟨n + k, w', reach.trans reach', same, left.trans left'⟩

theorem less {fewer : Nat} (h : Follows image c limit exit fuel m r) (le : fewer ≤ fuel) :
    Follows image c limit exit fewer m r :=
  h.after (.here m) (.refl limit _) (by omega)

theorem mono {more : Nat} (h : Follows image c limit exit fuel m r) (le : limit ≤ more) :
    Follows image c more exit fuel m r := by
  match r, h with
  | none, h => exact h
  | some (.error f, w), h => exact h
  | some (.ok last, w), ⟨n, w', reach, same, left⟩ => exact ⟨n, w', reach, same, left.mono le⟩

/-- One piece of code after another. -/
theorem followedBy {mid : Nat} {next : Value → World → Option (Outcome Value)}
    (first : Follows image c limit mid fuel m r)
    (second : ∀ last w, m.world.Leaves limit w →
      Follows image c limit exit fuel ⟨mid, last, w⟩ (next last (w.below c))) :
    Follows image c limit exit fuel m (followedBy r next) := by
  match r, first with
  | none, first => exact first
  | some (.error f, w), first => exact first
  | some (.ok last, w), ⟨n, w', reach, same, left⟩ =>
      subst same
      exact (second last w' left).after reach left (by omega)

/-- A label or a jump after a piece of code. -/
theorem moved {mid : Nat} (first : Follows image c limit mid fuel m r)
    (step : ∀ last w, Machine.step image ⟨mid, last, w⟩ = .running ⟨exit, last, w⟩) :
    Follows image c limit exit fuel m r := by
  rw [← followedBy_ok r]
  apply first.followedBy
  intro last w _
  exact ⟨1, w, .one (step last w), rfl, .refl limit w⟩

/-- A declaration or an expression statement. -/
theorem settled {o : Outcome Value} (step : m.step image = m.settled o)
    (left : m.world.Leaves limit o.2) :
    Follows image c limit (m.pc + 1) fuel m (some (o.below c)) := by
  obtain ⟨result, w⟩ := o
  cases result with
  | ok last => exact ⟨1, w, .one step, rfl, left⟩
  | error f =>
      refine ⟨1, w, ?_, rfl⟩
      rw [Machine.run, step]
      rfl

/-- A test, and one of two ways to go on. -/
theorem branched {o : Outcome Bool} {index : Nat} {when : Bool}
    {next : Bool → World → Option (Outcome Value)}
    (step : m.step image = m.branched index when o) (left : m.world.Leaves limit o.2)
    (rest : ∀ b w, m.world.Leaves limit w → Follows image c limit exit fuel
      ⟨if b = when then index else m.pc + 1, m.last, w⟩ (next b (w.below c))) :
    Follows image c limit exit (fuel + 1) m ((o.below c).proceed next) := by
  obtain ⟨result, w⟩ := o
  cases result with
  | ok b => exact (rest b w left).after (.one step) left (by omega)
  | error f =>
      refine ⟨1, w, ?_, rfl⟩
      rw [Machine.run, step]
      rfl

/-! ## Loops -/

/-- The check at the end of a loop, if the body leads back to it.  `w₀` is the world before the
loop, whose hidden variables the rounds before have left alone. -/
theorem repeatWhile {w₀ : World} {start check label : Nat} {test : Expr}
    {holds : World → Outcome Bool} {body : Value → World → Option (Outcome Value)}
    (code : image.code[check]? = some (.branch ⟨label⟩ test true))
    (found : image.target? ⟨label⟩ = some start)
    (tests : ∀ w, w₀.Leaves limit w →
      holds (w.below c) = (test.test w).below c ∧ w.Leaves limit (test.test w).2)
    (bodies : ∀ last w, w₀.Leaves limit w →
      Follows image c limit check fuel ⟨start, last, w⟩ (body last (w.below c)))
    {rounds : Nat} (enough : rounds ≤ fuel) (last : Value) {w : World} (left : w₀.Leaves limit w) :
    Follows image c limit (check + 1) rounds ⟨check, last, w⟩
      (Bound.repeatWhile holds body rounds last (w.below c)) := by
  induction rounds generalizing last w with
  | zero => rfl
  | succ rounds ih =>
      obtain ⟨same, kept⟩ := tests w left
      have step : Machine.step image ⟨check, last, w⟩ =
          Machine.branched ⟨check, last, w⟩ start true (test.test w) :=
        (Machine.step_of_code code).trans (Machine.execute_branch _ found test true)
      rw [Bound.repeatWhile, same]
      apply Follows.branched step kept
      intro b w' left'
      have so : w₀.Leaves limit w' := left.trans left'
      cases b with
      | false => exact ⟨0, w', .here _, rfl, .refl limit w'⟩
      | true =>
          have round := (bodies last w' so).less (Nat.le_of_succ_le enough)
          exact round.followedBy fun last w'' left'' =>
            ih (Nat.le_of_succ_le enough) last (so.trans left'')

/-- A loop that tests before each round. -/
theorem loop {w₀ : World} {pos label : Nat} {test : Expr} {inner : List Stmt}
    {holds : World → Outcome Bool} {body : Value → World → Option (Outcome Value)}
    (here : image.Holds pos (Bound.loopCode label test inner))
    (tests : ∀ w, w₀.Leaves limit w →
      holds (w.below c) = (test.test w).below c ∧ w.Leaves limit (test.test w).2)
    (bodies : image.Holds (pos + 2) inner → ∀ last w, w₀.Leaves limit w →
      Follows image c limit (pos + 2 + inner.length) fuel ⟨pos + 2, last, w⟩
        (body last (w.below c)))
    (last : Value) {w : World} (left : w₀.Leaves limit w) :
    Follows image c limit (pos + (Bound.loopCode label test inner).length) fuel ⟨pos, last, w⟩
      (Bound.repeatWhile holds body fuel last (w.below c)) := by
  have parts := here.whileAt
  have enter : Machine.step image ⟨pos, last, w⟩ =
      .running ⟨pos + 2 + inner.length + 1, last, w⟩ :=
    Machine.step_goto parts.enter parts.toBranch
  have toCheck : ∀ last w, Machine.step image ⟨pos + 2 + inner.length, last, w⟩ =
      .running ⟨pos + 2 + inner.length + 1, last, w⟩ :=
    fun last w => Machine.step_label parts.check
  have rounds := Follows.repeatWhile parts.branch parts.toBody tests
    (fun last w left => (bodies parts.body last w left).moved toCheck) (Nat.le_refl fuel) last left
  rw [parts.exit_eq]
  refine Follows.after (.one enter) (.refl limit w) (by omega) (rounds.moved ?_)
  intro last w
  exact Machine.step_label parts.done

end Follows

/-! ## Statements -/

namespace Bound

/-- A hidden variable stands for the value that it keeps. -/
theorem test_belowBound {v bound : Variable} {x : Value} {w : World}
    (kept : w.store.get? bound.id = some x) :
    (belowBound v bound).test w = (belowValue v x).test w := by
  unfold Expr.test belowBound belowValue
  simp only [Expr.eval]
  cases w.store.get? v.id with
  | none => rfl
  | some y =>
      simp only [Outcome.andThen]
      rw [kept]

/-- Whether the machine follows a statement on its code, wherever that stands. -/
def Stmt.CodeFollows (image : Image) (c fuel : Nat) (s : Stmt) : Prop :=
  ∀ {supply : Supply}, c ≤ supply.id → ∀ {pos : Nat}, image.Holds pos (s.code supply) →
    ∀ last w, Follows image c (s.supplyAfter supply).id (pos + (s.code supply).length) fuel
      ⟨pos, last, w⟩ (s.interpret fuel last (w.below c))

variable {image : Image} {c fuel : Nat}

theorem codeAll_follows {body : List Stmt} (each : ∀ s ∈ body, s.CodeFollows image c fuel)
    {supply : Supply} (le : c ≤ supply.id) {pos : Nat} (here : image.Holds pos (codeAll body supply))
    (last : Value) (w : World) :
    Follows image c (supplyAfterAll body supply).id (pos + (codeAll body supply).length) fuel
      ⟨pos, last, w⟩ (Stmt.interpretAll fuel body last (w.below c)) := by
  induction body generalizing supply pos last w with
  | nil =>
      rw [codeAll_nil]
      exact ⟨0, w, .here _, rfl, .refl _ w⟩
  | cons s ss ih =>
      rw [codeAll_cons] at here
      obtain ⟨first, rest⟩ := Image.holds_append.1 here
      have le' : c ≤ (s.supplyAfter supply).id := Nat.le_trans le (s.supply_le supply).2
      have limits : (s.supplyAfter supply).id ≤ (supplyAfterAll ss (s.supplyAfter supply)).id :=
        (supply_le_all (fun s _ => s.supply_le) _).2
      rw [codeAll_cons, supplyAfterAll_cons, Stmt.interpretAll, List.length_append, ← Nat.add_assoc]
      have one := each s List.mem_cons_self le first last w
      apply (one.mono limits).followedBy
      intro last w _
      exact ih (fun s member => each s (List.mem_cons_of_mem _ member)) le' rest last w

theorem IdsBelow.test_follows {test : Expr} (ids : test.IdsBelow c) {limit : Nat} (le : c ≤ limit)
    (w : World) : test.test (w.below c) = (test.test w).below c ∧
      w.Leaves limit (test.test w).2 :=
  ⟨Expr.test_below ids w, (test.test_leaves ids w).mono le⟩

theorem code_declare_follows {v : Variable} {init : Expr} (low : v.id < c) (ids : init.IdsBelow c)
    {limit : Nat} (le : c ≤ limit) {pos : Nat} (code : image.code[pos]? = some (.declare v init))
    (last : Value) (w : World) :
    Follows image c limit (pos + 1) fuel ⟨pos, last, w⟩ (some (init.declareAs v (w.below c))) := by
  rw [Expr.declareAs_below ids low]
  have step := Machine.step_of_code (m := ⟨pos, last, w⟩) code
  rw [Machine.execute_declare] at step
  exact Follows.settled step ((init.declareAs_leaves ids low w).mono le)

theorem code_expr_follows {e : Expr} (ids : e.IdsBelow c) {limit : Nat} (le : c ≤ limit) {pos : Nat}
    (code : image.code[pos]? = some (.expr e)) (last : Value) (w : World) :
    Follows image c limit (pos + 1) fuel ⟨pos, last, w⟩ (some (e.eval (w.below c))) := by
  rw [Expr.eval_below ids]
  have step := Machine.step_of_code (m := ⟨pos, last, w⟩) code
  rw [Machine.execute_expr] at step
  exact Follows.settled step ((e.eval_leaves ids w).mono le)

/-- The declaration of a hidden variable: the variable does not show, but it keeps the value. -/
theorem code_hidden_follows {v : Variable} {init : Expr} (high : c ≤ v.id) (ids : init.IdsBelow c)
    {limit : Nat} (low : v.id < limit) {pos exit : Nat}
    (code : image.code[pos]? = some (.declare v init))
    {next : Value → World → Option (Outcome Value)} {last : Value} {w : World}
    (rest : ∀ x w', w'.store.get? v.id = some x →
      Follows image c limit exit fuel ⟨pos + 1, x, w'⟩ (next x (w'.below c))) :
    Follows image c limit exit fuel ⟨pos, last, w⟩ ((init.eval (w.below c)).proceed next) := by
  have step := Machine.step_of_code (m := ⟨pos, last, w⟩) code
  rw [Machine.execute_declare, Expr.declareAs] at step
  have left := (init.eval_leaves ids w).mono (show c ≤ limit by omega)
  rw [Expr.eval_below ids]
  generalize init.eval w = o at step left ⊢
  obtain ⟨result, w'⟩ := o
  cases result with
  | error f =>
      refine ⟨1, w', ?_, rfl⟩
      rw [Machine.run, step]
      rfl
  | ok x =>
      have kept : (w'.store.upsert v x).get? v.id = some x := by rw [Store.get?_upsert, if_pos rfl]
      have more := rest x { w' with store := w'.store.upsert v x } kept
      rw [World.below_upsert high] at more
      exact more.after (.one step) (left.upsert low x) (by omega)

namespace Stmt.CodeFollows

variable {test : Expr} {body : Stmt}

theorem block {body : List Stmt} (each : ∀ s ∈ body, s.CodeFollows image c fuel) :
    (Stmt.block body).CodeFollows image c fuel := by
  intro supply le pos here last w
  rw [code_block] at here ⊢
  rw [supplyAfter_block, Stmt.interpret]
  exact codeAll_follows each le here last w

theorem declare {v : Variable} (low : v.id < c) {init : Expr} (ids : init.IdsBelow c) :
    (Stmt.declare v init).CodeFollows image c fuel := by
  intro supply le pos here last w
  rw [code_declare] at here ⊢
  rw [supplyAfter_declare]
  exact code_declare_follows low ids le here.1 last w

theorem expr {e : Expr} (ids : e.IdsBelow c) : (Stmt.expr e).CodeFollows image c fuel := by
  intro supply le pos here last w
  rw [code_expr] at here ⊢
  rw [supplyAfter_expr]
  exact code_expr_follows ids le here.1 last w

theorem ifThen (ids : test.IdsBelow c) {yes : Stmt} (follows : yes.CodeFollows image c fuel) :
    (Stmt.ifThen test yes).CodeFollows image c fuel := by
  intro supply le pos here last w
  have le' : c ≤ (yes.supplyAfter supply).id := Nat.le_trans le (yes.supply_le supply).2
  have parts := here.ifThenAt
  obtain ⟨same, left⟩ := IdsBelow.test_follows ids le' w
  have step := Machine.step_of_code (m := ⟨pos, last, w⟩) parts.branch
  rw [Machine.execute_branch _ parts.toDone] at step
  rw [supplyAfter_ifThen, Stmt.interpret, same]
  refine Follows.less (Follows.branched step left ?_) (Nat.le_succ fuel)
  intro b w _
  cases b with
  | false => exact ⟨0, w, .here _, rfl, .refl _ w⟩
  | true =>
      rw [parts.exit_eq]
      exact (follows le parts.yes last w).moved fun last w => Machine.step_label parts.done

theorem ifElse (ids : test.IdsBelow c) {yes no : Stmt} (followsYes : yes.CodeFollows image c fuel)
    (followsNo : no.CodeFollows image c fuel) :
    (Stmt.ifElse test yes no).CodeFollows image c fuel := by
  intro supply le pos here last w
  have first := (yes.supply_le supply).2
  have second := (no.supply_le (yes.supplyAfter supply)).2
  have parts := here.ifElseAt
  obtain ⟨same, left⟩ := IdsBelow.test_follows ids (Nat.le_trans (Nat.le_trans le first) second) w
  have step := Machine.step_of_code (m := ⟨pos, last, w⟩) parts.branch
  rw [Machine.execute_branch _ parts.toNo] at step
  rw [supplyAfter_ifElse, Stmt.interpret, same]
  refine Follows.less (Follows.branched step left ?_) (Nat.le_succ fuel)
  intro b w _
  cases b with
  | true =>
      have inner := (followsYes le parts.yes last w).mono second
      exact inner.moved fun last w => Machine.step_goto parts.skip parts.toDone
  | false =>
      rw [parts.exit_eq]
      have inner := followsNo (Nat.le_trans le first) parts.no last w
      exact inner.moved fun last w => Machine.step_label parts.done

theorem whileLoop (ids : test.IdsBelow c) (follows : body.CodeFollows image c fuel) :
    (Stmt.whileLoop test body).CodeFollows image c fuel := by
  intro supply le pos here last w
  have le' : c ≤ (body.supplyAfter supply).id := Nat.le_trans le (body.supply_le supply).2
  rw [code_whileLoop] at here ⊢
  rw [supplyAfter_whileLoop, Stmt.interpret]
  refine Follows.loop here ?_ ?_ last (.refl _ w)
  · intro w _
    exact IdsBelow.test_follows ids le' w
  · intro bodyHere last w _
    exact follows le bodyHere last w

theorem doWhile (ids : test.IdsBelow c) (follows : body.CodeFollows image c fuel) :
    (Stmt.doWhile body test).CodeFollows image c fuel := by
  intro supply le pos here last w
  have le' : c ≤ (body.supplyAfter supply).id := Nat.le_trans le (body.supply_le supply).2
  have parts := here.doWhileAt
  have start : Machine.step image ⟨pos, last, w⟩ = .running ⟨pos + 1, last, w⟩ :=
    Machine.step_label parts.enter
  rw [parts.exit_eq, supplyAfter_doWhile, Stmt.interpret]
  refine Follows.after (.one start) (.refl _ w) (Nat.le_add_left fuel 1) ?_
  apply (follows le parts.body last w).followedBy
  intro last w _
  refine Follows.repeatWhile parts.branch parts.toBody ?_ ?_ (Nat.le_refl fuel) last (.refl _ w)
  · intro w _
    exact IdsBelow.test_follows ids le' w
  · intro last w _
    exact follows le parts.body last w

/-- One round of a `for`: its body, and the step of its variable. -/
theorem round {v : Variable} (low : v.id < c) (follows : body.CodeFollows image c fuel)
    {supply : Supply} (le : c ≤ supply.id) {pos : Nat}
    (here : image.Holds pos (body.code supply ++ [Stmt.expr (increment v)])) (last : Value) (w : World) :
    Follows image c (body.supplyAfter supply).id
      (pos + (body.code supply ++ [Stmt.expr (increment v)]).length) fuel ⟨pos, last, w⟩
      (followedBy (body.interpret fuel last (w.below c)) fun _ w => some ((increment v).eval w)) := by
  have le' : c ≤ (body.supplyAfter supply).id := Nat.le_trans le (body.supply_le supply).2
  obtain ⟨bodyHere, stepCode, -⟩ := Image.holds_append.1 here
  rw [List.length_append, List.length_singleton, ← Nat.add_assoc]
  exact (follows le bodyHere last w).followedBy fun last w _ =>
    code_expr_follows (forall_vars_increment low) le' stepCode last w

theorem forTo {v : Variable} (low : v.id < c) {lower upper : Expr} (idsLower : lower.IdsBelow c)
    (idsUpper : upper.IdsBelow c) (follows : body.CodeFollows image c fuel) :
    (Stmt.forTo v lower upper body).CodeFollows image c fuel := by
  intro supply le pos here last w
  have le' : c ≤ (body.supplyAfter supply).id := Nat.le_trans le (body.supply_le supply).2
  rw [code_forTo] at here ⊢
  rw [supplyAfter_forTo]
  obtain ⟨lowerCode, -, boundCode, -, loopHere⟩ := here
  rw [List.length_cons, List.length_cons,
    show ∀ n, pos + (n + 1 + 1) = pos + 1 + 1 + n by omega, Stmt.interpret]
  have first : Follows image c ((body.supplyAfter supply).id + 1) (pos + 1) fuel ⟨pos, last, w⟩
      (some (lower.declareAs v (w.below c))) :=
    code_declare_follows low idsLower (Nat.le_succ_of_le le') lowerCode last w
  apply first.followedBy
  intro last w _
  refine code_hidden_follows le' idsUpper (Nat.lt_succ_self _) boundCode ?_
  intro x w kept
  refine Follows.mono (Follows.loop loopHere ?_ ?_ x (.refl _ w)) (Nat.le_succ _)
  · intro w' left
    rw [test_belowBound ((left _ (Nat.le_refl _)).trans kept)]
    exact IdsBelow.test_follows (forall_vars_belowValue low x) le' w'
  · intro roundHere last w' _
    exact follows.round low le roundHere last w'

end Stmt.CodeFollows

/-- The machine follows every statement on its code. -/
theorem Stmt.code_follows (s : Stmt) (structured : s.isStructured = true) (ids : s.IdsBelow c) :
    s.CodeFollows image c fuel := by
  induction s using Stmt.induction with
  | block body ih =>
      refine CodeFollows.block fun s member => ?_
      exact ih s member (Stmt.areStructured_iff.1 structured s member)
        fun v h => ids v (Stmt.mem_varsOf.2 ⟨s, member, h⟩)
  | declare v init =>
      obtain ⟨low, idsInit⟩ := List.forall_mem_cons.1 ids
      exact CodeFollows.declare low idsInit
  | expr e => exact CodeFollows.expr ids
  | ifThen test yes ih =>
      obtain ⟨idsTest, idsYes⟩ := List.forall_mem_append.1 ids
      exact CodeFollows.ifThen idsTest (ih structured idsYes)
  | ifElse test yes no ihYes ihNo =>
      simp only [Stmt.isStructured, Bool.and_eq_true] at structured
      obtain ⟨idsFirst, idsNo⟩ := List.forall_mem_append.1 ids
      obtain ⟨idsTest, idsYes⟩ := List.forall_mem_append.1 idsFirst
      exact CodeFollows.ifElse idsTest (ihYes structured.1 idsYes) (ihNo structured.2 idsNo)
  | whileLoop test body ih =>
      obtain ⟨idsTest, idsBody⟩ := List.forall_mem_append.1 ids
      exact CodeFollows.whileLoop idsTest (ih structured idsBody)
  | doWhile body test ih =>
      obtain ⟨idsBody, idsTest⟩ := List.forall_mem_append.1 ids
      exact CodeFollows.doWhile idsTest (ih structured idsBody)
  | forTo v lower upper body ih =>
      obtain ⟨low, idsParts⟩ := List.forall_mem_cons.1 ids
      obtain ⟨idsBounds, idsBody⟩ := List.forall_mem_append.1 idsParts
      obtain ⟨idsLower, idsUpper⟩ := List.forall_mem_append.1 idsBounds
      exact CodeFollows.forTo low idsLower idsUpper (ih structured idsBody)
  | goto target => cases structured
  | branch target test when => cases structured
  | label here => cases structured

/-! ## Programs -/

/-- The machine follows a statement on the whole program, to its end. -/
theorem Stmt.lower_follows (s : Stmt) (structured : s.isStructured = true) {c : Nat}
    (ids : s.IdsBelow c) (fuel : Nat) (last : Value) (w : World) :
    Follows (.load (lower s c).program) c (lower s c).nextId (lower s c).program.length fuel
      ⟨0, last, w⟩ (s.interpret fuel last (w.below c)) := by
  have held := Image.holds_load (labelIds_lower_nodup s structured c)
  rw [lower_program] at held ⊢
  have follows : s.CodeFollows (.load (s.code ⟨1, c⟩)) c fuel := s.code_follows structured ids
  have followed := follows (Nat.le_refl c) held last w
  rwa [Nat.zero_add, ← lower_nextId] at followed

/-- What a nested run gives, the machine gives, apart from hidden variables. -/
theorem Stmt.run_of_interpret {s : Stmt} (structured : s.isStructured = true) {c rounds : Nat}
    (ids : s.IdsBelow c) {last : Value} {w : World} {o : Outcome Value}
    (ended : s.interpret rounds last (w.below c) = some o) :
    ∃ fuel p, Machine.run (.load (lower s c).program) fuel ⟨0, last, w⟩ = some p ∧
      p.below c = o := by
  have followed := s.lower_follows structured ids rounds last w
  rw [ended] at followed
  match o, followed with
  | (.error f, w'), ⟨n, p, stopped, same⟩ =>
      exact ⟨n, (.error f, p), stopped, by rw [Outcome.below, same]⟩
  | (.ok x, w'), ⟨n, p, reach, same, _⟩ =>
      refine ⟨n + 1, (.ok x, p), ?_, by rw [Outcome.below, same]⟩
      rw [Machine.run_of_reaches reach, Machine.run, Machine.step]
      simp [Image.load]

/-- The machine stops on the program of a statement if and only if the nested run ends, with what
the nested run gives. -/
theorem Stmt.interpret_iff_run {s : Stmt} (structured : s.isStructured = true) {c : Nat}
    (ids : s.IdsBelow c) {last : Value} {w : World} {o : Outcome Value} :
    (∃ rounds, s.interpret rounds last (w.below c) = some o) ↔
      ∃ fuel p, Machine.run (.load (lower s c).program) fuel ⟨0, last, w⟩ = some p ∧
        p.below c = o := by
  constructor
  · rintro ⟨rounds, ended⟩
    exact run_of_interpret structured ids ended
  · rintro ⟨fuel, p, stopped, rfl⟩
    refine ⟨fuel, ?_⟩
    cases ended : s.interpret fuel last (w.below c) with
    | none =>
        -- the machine would be running still
        have followed := s.lower_follows structured ids fuel last w
        rw [ended] at followed
        cases stopped.symm.trans followed
    | some o =>
        obtain ⟨fuel', p', stopped', rfl⟩ := run_of_interpret structured ids ended
        rw [Machine.run_unique stopped stopped']

end Bound

/-! ## Where the variables of a run come from -/

section

variable {P : Variable → Prop} {image : Image}

theorem Bound.Expr.symbols_declareAs {e : Expr} {v : Variable} {w : World}
    (declared : P v) (all : ∀ u ∈ w.store.symbols, P u) :
    ∀ u ∈ (e.declareAs v w).2.store.symbols, P u := by
  have kept := e.eval_symbols w
  unfold Expr.declareAs
  match e.eval w, kept with
  | (.error f, w'), kept =>
      intro u member
      exact all u (kept ▸ member)
  | (.ok x, w'), kept =>
      intro u member
      simp only [Outcome.andThen, Store.symbols_upsert] at member
      rw [kept] at member
      split at member
      · exact all u member
      · rcases List.mem_append.1 member with old | new
        · exact all u old
        · rw [List.mem_singleton.1 new]
          exact declared

theorem Machine.step_symbols {m : Machine}
    (declares : ∀ v init, image.code[m.pc]? = some (.declare v init) → P v)
    (all : ∀ v ∈ m.world.store.symbols, P v) : ∀ v ∈ (m.step image).world.store.symbols, P v := by
  rw [Machine.step]
  cases code : image.code[m.pc]? with
  | none => exact all
  | some s =>
      cases s with
      | declare v init =>
          simp only [Machine.execute_declare, Machine.settled_world]
          exact Expr.symbols_declareAs (declares v init code) all
      | expr e =>
          simp only [Machine.execute_expr, Machine.settled_world]
          rw [e.eval_symbols]
          exact all
      | goto target =>
          simp only [Machine.execute, Machine.jump]
          split <;> exact all
      | branch target test when =>
          rw [← test.eval_symbols, ← m.execute_branch_world image target test when] at all
          exact all
      | _ => exact all

/-- The variables after a run are those before it and those that the program declares. -/
theorem Machine.run_symbols
    (declares : ∀ (pc : Nat) v init, image.code[pc]? = some (.declare v init) → P v)
    {fuel : Nat} {m : Machine} {o : Outcome Value} (all : ∀ v ∈ m.world.store.symbols, P v)
    (ended : m.run image fuel = some o) : ∀ v ∈ o.2.store.symbols, P v := by
  induction fuel generalizing m with
  | zero => cases ended
  | succ fuel ih =>
      have kept := Machine.step_symbols (declares m.pc) all
      rw [Machine.run] at ended
      cases step : m.step image with
      | running next =>
          rw [step] at ended kept
          exact ih kept ended
      | stopped result w =>
          rw [step] at ended kept
          cases ended
          exact kept

end

/-! ## The same meaning -/

theorem World.below_eq {c : Nat} {w : World} (fresh : ∀ slot ∈ w.store.slots, slot.symbol.id < c) :
    w.below c = w := by
  have same : w.store.below c = w.store := by
    unfold Store.below Store.retain
    rw [List.filter_eq_self.2 fun slot member => decide_eq_true (fresh slot member)]
  rw [World.below, same]

namespace Bound

/-- The variables that a program leaves behind from the counter on are hidden ones. -/
theorem hidden_of_runProgram {s : Stmt} {nextId : Nat} (ids : ∀ v ∈ s.vars, v.id < nextId) {w : World}
    (fresh : ∀ slot ∈ w.store.slots, slot.symbol.id < nextId) {fuel : Nat} {p : Outcome Value}
    (ended : runProgram fuel (lower s nextId).program w = some p) :
    ∀ v ∈ p.2.store.symbols, v.id < nextId ∨ IsHidden nextId (lower s nextId).nextId v := by
  refine Machine.run_symbols ?_ ?_ ended
  · intro pc v init code
    have member : Stmt.declare v init ∈ s.code ⟨1, nextId⟩ := by
      rw [← lower_program]
      simp only [Image.load, List.getElem?_toArray] at code
      exact List.mem_of_getElem? code
    rw [lower_nextId]
    exact (s.declares_code _ member).imp (ids v) id
  · intro v member
    obtain ⟨slot, stored, rfl⟩ := List.mem_map.1 member
    exact .inl (fresh slot stored)

/-- Lowering keeps the meaning of a statement without jumps: the machine stops on the lowered
program if and only if the nested run ends, with the same value or fault, the same text written, the
same input and draws used up, and the same store but for the hidden variables of loops. -/
theorem lower_preserves_meaning (s : Stmt) (structured : s.isStructured = true) (nextId : Nat)
    (ids : ∀ v ∈ s.vars, v.id < nextId) (w : World)
    (fresh : ∀ slot ∈ w.store.slots, slot.symbol.id < nextId) :
    (∀ o, (∃ rounds, s.interpret rounds .void w = some o) ↔
      ∃ fuel p, runProgram fuel (lower s nextId).program w = some p ∧ p.below nextId = o) ∧
    ∀ fuel p, runProgram fuel (lower s nextId).program w = some p →
      ∀ slot ∈ p.2.store.slots, nextId ≤ slot.symbol.id →
        slot.symbol = boundVariable slot.symbol.id ∧
          slot.symbol.id < (lower s nextId).nextId := by
  constructor
  · intro o
    have agree : (∃ rounds, s.interpret rounds .void (w.below nextId) = some o) ↔ _ :=
      Stmt.interpret_iff_run structured ids
    rw [World.below_eq fresh] at agree
    exact agree
  · intro fuel p ended slot stored high
    have member : slot.symbol ∈ p.2.store.symbols := List.mem_map_of_mem stored
    rcases hidden_of_runProgram ids fresh ended slot.symbol member with low | hidden
    · omega
    · obtain ⟨id, -, after, same⟩ := hidden
      have number : slot.symbol.id = id := by rw [same]; rfl
      rw [number]
      exact ⟨same, after⟩

/-- A sum of three numbers, added up by a loop. -/
def sampleLoop : Stmt :=
  let total : Variable := ⟨0, "total", .int, true, none⟩
  let i : Variable := ⟨1, "i", .int, true, none⟩
  .forTo i (.literal (.int 0)) (.literal (.int 3))
    (.expr (.assign total (.binary (.var total) ⟨.add, .int, .int, .int⟩ (.var i))))

/-- A world in which the sum starts at zero. -/
def sampleWorld : World :=
  { World.start [] (.ofSeed 0) with store := ⟨[⟨⟨0, "total", .int, true, none⟩, .int 0⟩]⟩ }

/-- The loop and the world are as the theorem wants them, and the machine stops on the loop. -/
theorem sampleLoop_lowered :
    (sampleLoop.isStructured = true ∧ (∀ v ∈ sampleLoop.vars, v.id < 2) ∧
      ∀ slot ∈ sampleWorld.store.slots, slot.symbol.id < 2) ∧
    ∃ fuel p, runProgram fuel (lower sampleLoop 2).program sampleWorld = some p ∧
      some (p.below 2) = sampleLoop.interpret 4 .void sampleWorld := by
  have ids : ∀ v ∈ sampleLoop.vars, v.id < 2 := by decide
  have fresh : ∀ slot ∈ sampleWorld.store.slots, slot.symbol.id < 2 := by decide
  refine ⟨⟨rfl, ids, fresh⟩, ?_⟩
  have ends : (sampleLoop.interpret 4 .void sampleWorld).isSome = true := by decide
  obtain ⟨o, ended⟩ := Option.isSome_iff_exists.1 ends
  have agree := (lower_preserves_meaning sampleLoop rfl 2 ids sampleWorld fresh).1 o
  obtain ⟨fuel, p, stopped, same⟩ := agree.1 ⟨4, ended⟩
  exact ⟨fuel, p, stopped, by rw [ended, same]⟩

end Bound

end ScriptLang
