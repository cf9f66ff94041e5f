/-
# ScriptLang.Proofs.Evaluation -- what evaluating an expression can change

Builtins do not touch variables (`Function.run_store`).  All that an evaluation
does to a store is a sequence of assignments to variables that the expression
assigns to, so what every such assignment keeps, the evaluation keeps
(`Expr.eval_keeps`).
-/
import ScriptLang.Proofs.Variables
import ScriptLang.Run.Eval

namespace ScriptLang

set_option autoImplicit false

/-! ## Builtins -/

theorem World.write_store (w : World) (text : String) : (w.write text).2.store = w.store := by
  unfold World.write
  split <;> rfl

theorem World.readLine_store (w : World) : w.readLine.2.store = w.store := by
  unfold World.readLine World.takeLine
  dsimp only
  split <;> rfl

theorem Outcome.andThen_store {α β : Type} {o : Outcome α} {f : α → World → Outcome β}
    (next : ∀ a w, (f a w).2.store = w.store) : (o.andThen f).2.store = o.2.store := by
  obtain ⟨result, w⟩ := o
  cases result with
  | ok a => exact next a w
  | error f => rfl

namespace Builtin

theorem runPrint_store (name ending : String) (args : List Value) (w : World) :
    (runPrint name ending args w).2.store = w.store := by
  cases args with
  | nil => rfl
  | cons x rest => exact (Outcome.andThen_store fun _ _ => rfl).trans (w.write_store _)

theorem runRandomInt_store (name : String) (args : List Value) (w : World) :
    (runRandomInt name args w).2.store = w.store := by
  unfold runRandomInt
  split
  · rfl
  · split <;> rfl
  · rfl

theorem runRandomFloat_store (name : String) (args : List Value) (w : World) :
    (runRandomFloat name args w).2.store = w.store := by
  unfold runRandomFloat
  split
  · rfl
  · split <;> rfl

theorem run_store (b : Builtin) (name : String) (args : List Value) (w : World) :
    (b.run name args w).2.store = w.store := by
  cases b with
  | print => exact runPrint_store _ _ _ _
  | println => exact runPrint_store _ _ _ _
  | input => exact (Outcome.andThen_store fun _ _ => rfl).trans w.readLine_store
  | stringify => cases args <;> rfl
  | randomInt => exact runRandomInt_store _ _ _
  | randomFloat => exact runRandomFloat_store _ _ _

end Builtin

/-- Functions do not touch variables. -/
theorem Function.run_store (f : Function) (args : List Value) (w : World) :
    (f.run args w).2.store = w.store := by
  unfold Function.run
  split
  · exact Builtin.run_store _ _ _ _
  · rfl

/-! ## Assignments -/

namespace Bound

mutual

/-- The variables that an expression assigns to. -/
def Expr.assigned : Expr → List Variable
  | .literal _ | .var _ | .error => []
  | .unary _ operand => operand.assigned
  | .binary left _ right => left.assigned ++ right.assigned
  | .assign v value => v :: value.assigned
  | .call _ args => Expr.assignedIn args
  | .convert _ e => e.assigned

def Expr.assignedIn : List Expr → List Variable
  | [] => []
  | e :: es => e.assigned ++ Expr.assignedIn es

end

theorem Expr.mem_assignedIn {v : Variable} {args : List Expr} :
    v ∈ Expr.assignedIn args ↔ ∃ e ∈ args, v ∈ e.assigned := by
  induction args with
  | nil => simp [Expr.assignedIn]
  | cons e es ih => simp [Expr.assignedIn, ih]

theorem Expr.vars_of_assigned {v : Variable} (e : Expr) (h : v ∈ e.assigned) : v ∈ e.vars := by
  induction e using Expr.induction with
  | literal value => cases h
  | unary rule operand ih => exact ih h
  | binary left rule right ihLeft ihRight =>
      rcases List.mem_append.1 h with h | h
      · exact List.mem_append.2 (.inl (ihLeft h))
      · exact List.mem_append.2 (.inr (ihRight h))
  | var v => cases h
  | assign u value ih =>
      rcases List.mem_cons.1 h with rfl | h
      · exact List.mem_cons_self
      · exact List.mem_cons_of_mem _ (ih h)
  | call f args ih =>
      obtain ⟨e, member, h⟩ := Expr.mem_assignedIn.1 h
      exact Expr.mem_varsOf.2 ⟨e, member, ih e member h⟩
  | convert ty e ih => exact ih h
  | error => cases h

section

variable {R : Store → Store → Prop} (refl : ∀ s, R s s) (trans : ∀ s t u, R s t → R t u → R s u)

include trans in
theorem Outcome.andThen_keeps {α β : Type} {s : Store} {o : Outcome α}
    {f : α → World → Outcome β} (first : R s o.2.store)
    (next : ∀ a w, R w.store (f a w).2.store) : R s (o.andThen f).2.store := by
  obtain ⟨result, w⟩ := o
  cases result with
  | ok a => exact trans _ _ _ first (next a w)
  | error f => exact first

include refl trans

theorem Expr.evalAll_keeps {args : List Expr}
    (each : ∀ e ∈ args, ∀ w : World, R w.store (e.eval w).2.store) (w : World) :
    R w.store (Expr.evalAll args w).2.store := by
  induction args generalizing w with
  | nil => exact refl _
  | cons e es ih =>
      rw [Expr.evalAll]
      apply Outcome.andThen_keeps trans (each e List.mem_cons_self w)
      intro x w
      refine Outcome.andThen_keeps trans ?_ fun _ _ => refl _
      exact ih (fun e member => each e (List.mem_cons_of_mem _ member)) w

/-- What the assignments of an expression keep, its evaluation keeps. -/
theorem Expr.eval_keeps (e : Expr)
    (assign : ∀ v ∈ e.assigned, ∀ s t x, s.assign? v.id x = some t → R s t) (w : World) :
    R w.store (e.eval w).2.store := by
  induction e using Expr.induction generalizing w with
  | literal value => exact refl _
  | unary rule operand ih =>
      rw [Expr.eval]
      exact Outcome.andThen_keeps trans (ih assign w) fun _ _ => refl _
  | binary left rule right ihLeft ihRight =>
      rw [Expr.eval]
      have first := ihLeft (fun v h => assign v (List.mem_append.2 (.inl h)))
      have second := ihRight (fun v h => assign v (List.mem_append.2 (.inr h)))
      apply Outcome.andThen_keeps trans (first w)
      intro _ w
      exact Outcome.andThen_keeps trans (second w) fun _ _ => refl _
  | var v =>
      rw [Expr.eval]
      split <;> exact refl _
  | assign v value ih =>
      rw [Expr.eval]
      have inner := ih (fun u h => assign u (List.mem_cons_of_mem _ h))
      apply Outcome.andThen_keeps trans (inner w)
      intro x w
      cases assigned : w.store.assign? v.id x with
      | none => exact refl _
      | some t => exact assign v List.mem_cons_self _ _ _ assigned
  | call f args ih =>
      rw [Expr.eval]
      have each : ∀ e ∈ args, ∀ w : World, R w.store (e.eval w).2.store := by
        intro e member w
        exact ih e member (fun v h => assign v (Expr.mem_assignedIn.2 ⟨e, member, h⟩)) w
      apply Outcome.andThen_keeps trans (Expr.evalAll_keeps refl trans each w)
      intro xs w
      rw [f.run_store xs w]
      exact refl _
  | convert ty e ih =>
      rw [Expr.eval]
      exact Outcome.andThen_keeps trans (ih assign w) fun _ _ => refl _
  | error => exact refl _

end

/-- Evaluation keeps the variables that have a value, and their order. -/
theorem Expr.eval_symbols (e : Expr) (w : World) :
    (e.eval w).2.store.symbols = w.store.symbols := by
  have kept := @Expr.eval_keeps (fun s t => t.symbols = s.symbols) (fun _ => rfl)
    (fun _ _ _ first second => second.trans first) e
  exact kept (fun _ _ _ _ _ assigned => Store.symbols_assign? assigned) w

/-- Evaluation keeps the values of the variables that are not assigned to. -/
theorem Expr.eval_get? (e : Expr) {id : Nat} (apart : ∀ v ∈ e.assigned, v.id ≠ id) (w : World) :
    (e.eval w).2.store.get? id = w.store.get? id := by
  have kept := @Expr.eval_keeps (fun s t => t.get? id = s.get? id) (fun _ => rfl)
    (fun _ _ _ first second => second.trans first) e
  refine kept ?_ w
  intro v member s t x assigned
  rw [Store.get?_assign? assigned, if_neg (fun same => apart v member same.symm)]

end Bound

end ScriptLang
