/-
# ScriptLang.Proofs.Scoping -- variables have values where they are used

A statement is scoped if every variable that it uses was declared before, in its
block or in one around it, or had a value to begin with (`Stmt.Scoped`).  Binding
finds variables in scopes, and puts them there when they are declared, so what it
makes is scoped, whether or not something else is wrong with it
(`bindStmt_scoped`).

A declaration gives its variable a value before the statements after it run, and
nothing takes a value away.  So no run of a scoped statement meets a variable
without a value (`Stmt.interpret_defined`).
-/
import ScriptLang.Proofs.Chaining

namespace ScriptLang

set_option autoImplicit false

/-! ## Outcomes that do not quote a variable -/

/-- Whether all variables with some numbers have values. -/
def Store.Present (Γ : List Nat) (s : Store) : Prop := ∀ id ∈ Γ, s.contains id = true

theorem Store.Present.of_symbols {Γ : List Nat} {s t : Store} (present : s.Present Γ)
    (same : t.symbols = s.symbols) : t.Present Γ := by
  intro id member
  rw [contains_iff_symbols, same, ← contains_iff_symbols]
  exact present id member

theorem Store.Present.mono {Γ Δ : List Nat} {s : Store} (present : s.Present Δ) (sub : Γ ⊆ Δ) :
    s.Present Γ :=
  fun id member => present id (sub member)

theorem Store.Present.upsert {Γ : List Nat} {s : Store} (present : s.Present Γ) (v : Variable)
    (x : Value) : (s.upsert v x).Present (v.id :: Γ) := by
  have read := s.get?_upsert v x
  intro id member
  by_cases same : id = v.id
  · exact contains_of_get? ((read id).trans (if_pos same))
  · obtain ⟨y, stored⟩ := exists_get? (present id ((List.mem_cons.1 member).resolve_left same))
    exact contains_of_get? ((read id).trans ((if_neg same).trans stored))

/-- Whether an outcome is no fault about a variable without a value, and what has to have values
after it does. -/
structure Outcome.Defined {α : Type} (Γ : List Nat) (o : Outcome α) : Prop where
  fault : ∀ f, o.1 = .error f → f.kind ≠ .undefinedVariable
  present : ∀ a, o.1 = .ok a → o.2.store.Present Γ

namespace Outcome.Defined

variable {Γ Δ : List Nat} {α β : Type}

theorem ok {a : α} {w : World} (present : w.store.Present Γ) : Outcome.Defined Γ (.ok a, w) where
  fault := by rintro f ⟨⟩
  present := fun _ _ => present

theorem error {f : Fault} {w : World} (other : f.kind ≠ .undefinedVariable) :
    Outcome.Defined Γ ((.error f, w) : Outcome α) where
  fault := by rintro f ⟨⟩; exact other
  present := by rintro a ⟨⟩

theorem of_not_quotes {result : Except Fault Value} {w : World} (h : ¬ Quotes result)
    (present : w.store.Present Γ) : Outcome.Defined Γ (result, w) where
  fault := fun f same kind => h ⟨f, same, kind⟩
  present := fun _ _ => present

theorem andThen {o : Outcome α} {f : α → World → Outcome β} (defined : o.Defined Γ)
    (next : ∀ a w, w.store.Present Γ → (f a w).Defined Δ) : (o.andThen f).Defined Δ := by
  obtain ⟨result, w⟩ := o
  cases result with
  | ok a => exact next a w (defined.present a rfl)
  | error f => exact .error (defined.fault f rfl)

end Outcome.Defined

/-- Whether a run, if it ends, ends with such an outcome. -/
def RunDefined (Γ : List Nat) (run : Option (Outcome Value)) : Prop := ∀ o ∈ run, o.Defined Γ

variable {Γ Δ : List Nat}

theorem RunDefined.some {o : Outcome Value} (defined : o.Defined Γ) : RunDefined Γ (.some o) := by
  rintro o ⟨⟩
  exact defined

theorem RunDefined.mono {run : Option (Outcome Value)} (defined : RunDefined Δ run) (sub : Γ ⊆ Δ) :
    RunDefined Γ run := by
  intro o ended
  have here := defined o ended
  exact ⟨here.fault, fun x value => (here.present x value).mono sub⟩

theorem Outcome.Defined.proceed {α : Type} {o : Outcome α}
    {next : α → World → Option (Outcome Value)} (defined : o.Defined Γ)
    (rest : ∀ a w, w.store.Present Γ → RunDefined Δ (next a w)) : RunDefined Δ (o.proceed next) := by
  obtain ⟨result, w⟩ := o
  cases result with
  | ok a => exact rest a w (defined.present a rfl)
  | error f => exact .some (.error (defined.fault f rfl))

theorem RunDefined.followedBy {run : Option (Outcome Value)}
    {next : Value → World → Option (Outcome Value)} (defined : RunDefined Γ run)
    (rest : ∀ last w, w.store.Present Γ → RunDefined Δ (next last w)) :
    RunDefined Δ (followedBy run next) := by
  cases run with
  | none => rintro o ⟨⟩
  | some o => exact (defined o rfl).proceed rest

theorem repeatWhile_defined {test : World → Outcome Bool}
    {body : Value → World → Option (Outcome Value)}
    (tests : ∀ w, w.store.Present Γ → (test w).Defined Γ)
    (round : ∀ last w, w.store.Present Γ → RunDefined Γ (body last w)) (rounds : Nat) (last : Value)
    {w : World} (present : w.store.Present Γ) :
    RunDefined Γ (Bound.repeatWhile test body rounds last w) := by
  induction rounds generalizing last w with
  | zero => rintro o ⟨⟩
  | succ rounds ih =>
      rw [Bound.repeatWhile]
      apply (tests w present).proceed
      intro holds w present
      cases holds with
      | true => exact (round last w present).followedBy fun last _ present => ih last present
      | false => exact .some (.ok present)

/-! ## Expressions -/

/-- A function does not quote variables: what it gives is the same under all names for them. -/
theorem Function.run_defined (f : Function) (args : List Value) {w : World}
    (present : w.store.Present Γ) : (f.run args w).Defined Γ := by
  have blind : ∀ name,
      World.Seen ⟨fun i => i, name⟩ (fun _ => false) "" w { w with store := .empty } := by
    intro name
    refine ⟨?_, rfl, String.empty_append.symm, fun written text => by rw [String.empty_append], rfl⟩
    simp [Store.view, Store.empty]
  refine ⟨?_, fun _ _ => by rw [f.run_store]; exact present⟩
  intro g fault kind
  have one := (f.run_seen (blind fun _ => "a") args).1
  have other := (f.run_seen (blind fun _ => "b") args).1
  rw [one, fault] at other
  cases g with
  | undefinedVariable name =>
      simp [Renaming.result, Fault.rename] at other
  | _ => cases kind

namespace Bound

theorem Expr.evalAll_defined {args : List Expr}
    (each : ∀ e ∈ args, ∀ w : World, w.store.Present Γ → (e.eval w).Defined Γ) {w : World}
    (present : w.store.Present Γ) : (Expr.evalAll args w).Defined Γ := by
  induction args generalizing w with
  | nil => exact .ok present
  | cons e es ih =>
      rw [List.forall_mem_cons] at each
      rw [Expr.evalAll]
      apply (each.1 w present).andThen
      intro x w present
      exact (ih each.2 present).andThen fun _ _ present => .ok present

/-- An expression whose variables have values does not come to one without. -/
theorem Expr.eval_defined (e : Expr) (inScope : ∀ v ∈ e.vars, v.id ∈ Γ) {w : World}
    (present : w.store.Present Γ) : (e.eval w).Defined Γ := by
  induction e using Expr.induction generalizing w with
  | literal value => exact .ok present
  | unary rule operand ih =>
      rw [Expr.eval]
      apply (ih inScope present).andThen
      intro x w present
      exact .of_not_quotes (Operation.unary_not_quotes _ _) present
  | binary left rule right ihLeft ihRight =>
      obtain ⟨inLeft, inRight⟩ := List.forall_mem_append.1 inScope
      rw [Expr.eval]
      apply (ihLeft inLeft present).andThen
      intro l w present
      apply (ihRight inRight present).andThen
      intro r w present
      exact .of_not_quotes (Operation.binary_not_quotes _ _ _) present
  | var v =>
      obtain ⟨x, stored⟩ := Store.exists_get? (present v.id (inScope v List.mem_cons_self))
      rw [Expr.eval, stored]
      exact .ok present
  | assign v value ih =>
      rw [Expr.vars, List.forall_mem_cons] at inScope
      rw [Expr.eval]
      apply (ih inScope.2 present).andThen
      intro x w present
      cases assigned : w.store.assign? v.id x with
      | some t => exact .ok (present.of_symbols (Store.symbols_assign? assigned))
      | none =>
          obtain ⟨y, stored⟩ := Store.exists_get? (present v.id inScope.1)
          rw [Store.assign?_eq_none_iff.1 assigned] at stored
          cases stored
  | call f args ih =>
      rw [Expr.eval]
      have each : ∀ e ∈ args, ∀ w : World, w.store.Present Γ → (e.eval w).Defined Γ :=
        fun e member w present =>
          ih e member (fun v h => inScope v (Expr.mem_varsOf.2 ⟨e, member, h⟩)) present
      exact (Expr.evalAll_defined each present).andThen fun xs _ present => f.run_defined xs present
  | convert ty e ih =>
      rw [Expr.eval]
      apply (ih inScope present).andThen
      intro x w present
      exact .of_not_quotes (Operation.convert_not_quotes _ _) present
  | error => exact .error (by simp [Fault.kind])

theorem Expr.test_defined (e : Expr) (inScope : ∀ v ∈ e.vars, v.id ∈ Γ) {w : World}
    (present : w.store.Present Γ) : (e.test w).Defined Γ := by
  apply (e.eval_defined inScope present).andThen
  intro x w present
  cases x with
  | bool b => exact .ok present
  | _ => exact .error (by simp [Fault.kind])

theorem Expr.declareAs_defined (e : Expr) (inScope : ∀ v ∈ e.vars, v.id ∈ Γ) (v : Variable)
    {w : World} (present : w.store.Present Γ) : (e.declareAs v w).Defined (v.id :: Γ) :=
  (e.eval_defined inScope present).andThen fun x _ present => .ok (present.upsert v x)

/-! ## Statements -/

mutual

/-- Whether a statement uses only variables that have values: those with some numbers, and those that
it declares itself before it uses them. -/
def Stmt.Scoped : List Nat → Stmt → Prop
  | Γ, .block body => Stmt.ScopedAll Γ body
  | Γ, .declare _ init => ∀ u ∈ init.vars, u.id ∈ Γ
  | Γ, .ifThen test yes => (∀ u ∈ test.vars, u.id ∈ Γ) ∧ yes.Scoped Γ
  | Γ, .ifElse test yes no => (∀ u ∈ test.vars, u.id ∈ Γ) ∧ yes.Scoped Γ ∧ no.Scoped Γ
  | Γ, .whileLoop test body => (∀ u ∈ test.vars, u.id ∈ Γ) ∧ body.Scoped Γ
  | Γ, .doWhile body test => body.Scoped Γ ∧ ∀ u ∈ test.vars, u.id ∈ Γ
  | Γ, .forTo v lower upper body =>
      (∀ u ∈ lower.vars, u.id ∈ Γ) ∧ (∀ u ∈ upper.vars, u.id ∈ Γ) ∧ body.Scoped (v.id :: Γ)
  | Γ, .expr e => ∀ u ∈ e.vars, u.id ∈ Γ
  | _, .goto _ | _, .branch .. | _, .label _ => True

def Stmt.ScopedAll : List Nat → List Stmt → Prop
  | _, [] => True
  | Γ, s :: ss => s.Scoped Γ ∧ Stmt.ScopedAll (s.leaves.map (·.id) ++ Γ) ss

end

theorem Stmt.interpretAll_defined {rounds : Nat} {body : List Stmt}
    (each : ∀ s ∈ body, ∀ Γ, s.Scoped Γ → ∀ last (w : World), w.store.Present Γ →
      RunDefined (s.leaves.map (·.id) ++ Γ) (s.interpret rounds last w))
    (inScope : Stmt.ScopedAll Γ body) (last : Value) {w : World} (present : w.store.Present Γ) :
    RunDefined Γ (Stmt.interpretAll rounds body last w) := by
  induction body generalizing Γ last w with
  | nil => exact .some (.ok present)
  | cons s ss ih =>
      rw [List.forall_mem_cons] at each
      rw [Stmt.interpretAll]
      apply (each.1 Γ inScope.1 last w present).followedBy
      intro last w present
      exact (ih each.2 inScope.2 last present).mono (List.subset_append_right _ _)

/-- No run of a scoped statement comes to a variable without a value. -/
theorem Stmt.interpret_defined {rounds : Nat} (s : Stmt) (inScope : s.Scoped Γ) (last : Value)
    (w : World) (present : w.store.Present Γ) :
    RunDefined (s.leaves.map (·.id) ++ Γ) (s.interpret rounds last w) := by
  induction s using Stmt.induction generalizing Γ last w with
  | block body ih =>
      rw [Stmt.interpret]
      exact Stmt.interpretAll_defined (fun s member Γ => ih s member) inScope last present
  | declare v init => exact .some (init.declareAs_defined inScope v present)
  | ifThen test yes ih =>
      rw [Stmt.interpret]
      apply (test.test_defined inScope.1 present).proceed
      intro holds w present
      cases holds with
      | true => exact (ih inScope.2 last w present).mono (List.subset_append_right _ _)
      | false => exact .some (.ok present)
  | ifElse test yes no ihYes ihNo =>
      rw [Stmt.interpret]
      apply (test.test_defined inScope.1 present).proceed
      intro holds w present
      cases holds with
      | true => exact (ihYes inScope.2.1 last w present).mono (List.subset_append_right _ _)
      | false => exact (ihNo inScope.2.2 last w present).mono (List.subset_append_right _ _)
  | whileLoop test body ih =>
      rw [Stmt.interpret]
      refine repeatWhile_defined (fun w => test.test_defined inScope.1) ?_ rounds last present
      intro last w present
      exact (ih inScope.2 last w present).mono (List.subset_append_right _ _)
  | doWhile body test ih =>
      have round : ∀ last (w : World), w.store.Present Γ →
          RunDefined Γ (body.interpret rounds last w) :=
        fun last w present => (ih inScope.1 last w present).mono (List.subset_append_right _ _)
      rw [Stmt.interpret]
      apply (round last w present).followedBy
      intro last w present
      exact repeatWhile_defined (fun w => test.test_defined inScope.2) round rounds last present
  | forTo v lower upper body ih =>
      obtain ⟨lowerIn, upperIn, bodyIn⟩ := inScope
      have upperIn : ∀ u ∈ upper.vars, u.id ∈ v.id :: Γ :=
        fun u member => List.mem_cons_of_mem _ (upperIn u member)
      have own : v.id ∈ v.id :: Γ := List.mem_cons_self
      rw [Stmt.interpret]
      apply (lower.declareAs_defined lowerIn v present).proceed
      intro _ w present
      apply (upper.eval_defined upperIn present).proceed
      intro bound w present
      have loop : RunDefined (v.id :: Γ) (repeatWhile (belowValue v bound).test
          (fun last w => followedBy (body.interpret rounds last w)
            fun _ w => some ((increment v).eval w)) rounds bound w) := by
        have tested := forall_vars_belowValue (P := (·.id ∈ v.id :: Γ)) own bound
        refine repeatWhile_defined (fun w => (belowValue v bound).test_defined tested) ?_ rounds bound
          present
        intro last w present
        have round := (ih bodyIn last w present).mono (List.subset_append_right _ _)
        apply round.followedBy
        intro _ w present
        have stepped := forall_vars_increment (P := (·.id ∈ v.id :: Γ)) own
        exact .some ((increment v).eval_defined stepped present)
      exact loop.mono (List.subset_cons_self _ _)
  | expr e => exact .some (e.eval_defined inScope present)
  | goto target => exact .some (.error (by simp [Fault.kind]))
  | branch target test when => exact .some (.error (by simp [Fault.kind]))
  | label here => exact .some (.error (by simp [Fault.kind]))

/-! ## Binding -/

section

variable {scope : Scope} (known : ∀ v ∈ scope.vars, v.id ∈ Γ)

include known

theorem goes_self : Scope.Goes .refl (fun id => id ∈ Γ) scope scope where
  find := fun name => by
    cases scope.find? name with
    | none => rfl
    | some v => exact congrArg some (Renaming.var_refl v).symm
  known := known
  overloads := fun _ => rfl

theorem resolve_scoped (e : Syntax.Expr) : ∀ v ∈ (resolve scope e).value.vars, v.id ∈ Γ :=
  (resolve_goes (goes_self known) e).value.2

theorem resolveTo_scoped (e : Syntax.Expr) (ty : Ty) :
    ∀ v ∈ (resolveTo scope e ty).value.vars, v.id ∈ Γ :=
  (resolveTo_goes (goes_self known) e ty).value.2

/-- What a variable is declared with. -/
theorem resolveInit_scoped (e : Syntax.Expr) (ty : Ty) :
    ∀ v ∈ (convertTo (resolveValue scope e).value e.span ty false).value.vars, v.id ∈ Γ :=
  (convertTo_goes (resolveValue_goes (goes_self known) e).value e.span ty false).value.2

end

/-- What a statement tests. -/
theorem Binder.check_scoped {b : Binder} (known : ∀ v ∈ b.scope.vars, v.id ∈ Γ) (e : Syntax.Expr)
    (ty : Ty) : ∀ v ∈ (b.check (resolveTo · e ty)).1.vars, v.id ∈ Γ := by
  rw [Binder.check_value]
  exact resolveTo_scoped known e ty

theorem Binder.declare_vars (b : Binder) (name : Syntax.Name) (mutable : Bool) (ty : Ty) :
    ∀ u ∈ (b.declare name mutable ty).2.scope.vars,
      u ∈ b.scope.vars ∨ u = (b.declare name mutable ty).1 := by
  intro u member
  rw [Binder.declare_variable]
  rcases b.declare_cases name mutable ty with ⟨-, eq⟩ | ⟨-, eq⟩ | ⟨-, eq⟩
  · rw [eq] at member
    exact .inl member
  · rw [eq] at member
    exact .inl member
  · rw [eq] at member
    exact (Scope.mem_vars_extend.1 member).imp_right List.mem_singleton.1

/-- The variables in scope after a statement were there before it, or are left by it. -/
theorem bindStmt_vars (s : Syntax.Stmt) (b : Binder) :
    ∀ v ∈ (bindStmt s b).2.scope.vars, v ∈ b.scope.vars ∨ v ∈ (bindStmt s b).1.leaves := by
  cases s with
  | var span name mutable ty init =>
      rw [bindStmt_var]
      dsimp only
      intro v member
      rcases Binder.declare_vars _ _ _ _ v member with old | rfl
      · rw [firstValue_scope] at old
        exact .inl old
      · exact .inr List.mem_cons_self
  | _ =>
      rw [bindStmt_same (by simp)]
      exact fun v member => .inl member

theorem bindStmts_scoped {body : List Syntax.Stmt}
    (each : ∀ s ∈ body, ∀ Γ (b : Binder), (∀ v ∈ b.scope.vars, v.id ∈ Γ) →
      (bindStmt s b).1.Scoped Γ)
    {b : Binder} (known : ∀ v ∈ b.scope.vars, v.id ∈ Γ) :
    Stmt.ScopedAll Γ (bindStmts body b).1 := by
  induction body generalizing Γ b with
  | nil =>
      rw [bindStmts_nil]
      trivial
  | cons s ss ih =>
      rw [List.forall_mem_cons] at each
      rw [bindStmts_cons]
      refine ⟨each.1 Γ b known, ih each.2 ?_⟩
      intro v member
      rcases bindStmt_vars s b v member with old | left
      · exact List.mem_append.2 (.inr (known v old))
      · exact List.mem_append.2 (.inl (List.mem_map_of_mem left))

theorem bindBlock_scoped {body : Syntax.Block}
    (each : ∀ s ∈ body.statements, ∀ Γ (b : Binder), (∀ v ∈ b.scope.vars, v.id ∈ Γ) →
      (bindStmt s b).1.Scoped Γ)
    {b : Binder} (known : ∀ v ∈ b.scope.vars, v.id ∈ Γ) : (bindBlock body b).1.Scoped Γ := by
  rw [bindBlock_eq]
  refine bindStmts_scoped each (b := b.enter) ?_
  show ∀ v ∈ b.scope.push.vars, v.id ∈ Γ
  rw [Scope.vars_push]
  exact known

/-- Binding makes scoped statements. -/
theorem bindStmt_scoped (s : Syntax.Stmt) (b : Binder) (known : ∀ v ∈ b.scope.vars, v.id ∈ Γ) :
    (bindStmt s b).1.Scoped Γ := by
  induction s using Syntax.Stmt.induction generalizing Γ b with
  | block body ih =>
      rw [bindStmt]
      exact bindBlock_scoped (fun s member Γ => ih s member) known
  | var span name mutable ty init =>
      rw [bindStmt_var]
      exact resolveInit_scoped known init _
  | ifThen span test yes ih =>
      rw [bindStmt_ifThen]
      refine ⟨Binder.check_scoped known test .bool, ?_⟩
      exact bindBlock_scoped (fun s member Γ => ih s member) known
  | ifElse span test yes no ihYes ihNo =>
      rw [bindStmt_ifElse]
      refine ⟨Binder.check_scoped known test .bool, ?_, ?_⟩
      · exact bindBlock_scoped (fun s member Γ => ihYes s member) known
      · refine bindBlock_scoped (fun s member Γ => ihNo s member) ?_
        rw [bindBlock_same]
        exact known
  | whileLoop span test body ih =>
      cases test with
      | none =>
          rw [bindStmt_whileLoop_none]
          refine ⟨by rintro u ⟨⟩, ?_⟩
          exact bindBlock_scoped (fun s member Γ => ih s member) known
      | some test =>
          rw [bindStmt_whileLoop_some]
          refine ⟨Binder.check_scoped known test .bool, ?_⟩
          exact bindBlock_scoped (fun s member Γ => ih s member) known
  | doWhile span body test ih =>
      rw [bindStmt_doWhile]
      refine ⟨bindBlock_scoped (fun s member Γ => ih s member) known, ?_⟩
      refine Binder.check_scoped ?_ test .bool
      rw [bindBlock_same]
      exact known
  | forTo span var mutable lower upper body ih =>
      rw [bindStmt_forTo]
      refine ⟨Binder.check_scoped known lower .int, Binder.check_scoped known upper .int, ?_⟩
      refine bindBlock_scoped (fun s member Γ => ih s member) ?_
      intro v member
      rcases Binder.declare_vars _ _ _ _ v member with old | rfl
      · have old : v ∈ b.scope.push.vars := old
        rw [Scope.vars_push] at old
        exact List.mem_cons_of_mem _ (known v old)
      · exact List.mem_cons_self
  | expr e =>
      rw [bindStmt_expr]
      exact resolve_scoped known e

end Bound

end ScriptLang
