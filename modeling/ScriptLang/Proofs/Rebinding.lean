/-
# ScriptLang.Proofs.Rebinding -- binding again under other numbers

Binding looks at names and types, and hands numbers through.  So in a scope that
finds the same variables under other numbers an expression resolves to the same
expression under those numbers (`resolve_goes`), and statements that bind without
a problem bind to the same statements (`bindStmt_rebinds`).

The other scope may hide less: a name that is declared in the same block here may
be declared in an outer block there, where it does not get in the way.
-/
import ScriptLang.Proofs.Binding

namespace ScriptLang

set_option autoImplicit false

namespace Bound

/-! ## Pairs of checks -/

/-- Whether one check goes with another: their values belong together, and the second has no problem
if the first has none. -/
structure Checked.Goes {α β : Type} (R : α → β → Prop) (c : Checked α) (c' : Checked β) : Prop where
  value : R c.value c'.value
  clean : c.problems = [] → c'.problems = []

namespace Checked.Goes

variable {α β γ δ : Type} {R : α → β → Prop} {S : γ → δ → Prop}

theorem pure {a : α} {b : β} (h : R a b) : Goes R (Pure.pure a) (Pure.pure b) := ⟨h, fun _ => rfl⟩

theorem bind {c : Checked α} {c' : Checked β} {f : α → Checked γ} {f' : β → Checked δ}
    (first : Goes R c c') (next : ∀ a b, R a b → Goes S (f a) (f' b)) :
    Goes S (c >>= f) (c' >>= f') := by
  have rest := next _ _ first.value
  refine ⟨rest.value, ?_⟩
  intro clean
  rw [Checked.problems_bind, List.append_eq_nil_iff] at clean ⊢
  exact ⟨first.clean clean.1, rest.clean clean.2⟩

/-- Nothing is promised after a report. -/
theorem reported {c : Checked Unit} (dirty : c.problems ≠ []) {f : Unit → Checked α}
    {c' : Checked β} (value : R (f c.value).value c'.value) : Goes R (c >>= f) c' := by
  refine ⟨value, ?_⟩
  intro clean
  rw [Checked.problems_bind, List.append_eq_nil_iff] at clean
  exact absurd clean.1 dirty

end Checked.Goes

/-! ## Expressions -/

variable {ρ : Renaming} {P : Nat → Prop}

/-- Whether an expression is another one under other numbers, all of which are of some kind. -/
def Expr.Goes (ρ : Renaming) (P : Nat → Prop) (e e' : Expr) : Prop :=
  e' = e.rename ρ ∧ ∀ v ∈ e.vars, P v.id

theorem Expr.Goes.of_vars {e : Expr} (same : e.rename ρ = e) (none : e.vars = []) : e.Goes ρ P e := by
  refine ⟨same.symm, ?_⟩
  rw [none]
  exact List.forall_mem_nil _

theorem Expr.goes_error : Expr.Goes ρ P .error .error := .of_vars rfl rfl

theorem requireValue_goes {e e' : Expr} (goes : e.Goes ρ P e') (span : Span) :
    Checked.Goes (Expr.Goes ρ P) (requireValue span e) (requireValue span e') := by
  obtain ⟨rfl, vars⟩ := goes
  unfold requireValue
  rw [Expr.ty_rename]
  split
  · exact .reported (Checked.report_ne_nil _ _) Expr.goes_error
  · exact .pure ⟨rfl, vars⟩

theorem convertTo_goes {e e' : Expr} (goes : e.Goes ρ P e') (span : Span) (ty : Ty) (cast : Bool) :
    Checked.Goes (Expr.Goes ρ P) (convertTo e span ty cast) (convertTo e' span ty cast) := by
  obtain ⟨rfl, vars⟩ := goes
  unfold convertTo
  rw [Expr.ty_rename]
  dsimp only
  split
  · split
    · exact .reported (Checked.report_ne_nil _ _) Expr.goes_error
    · exact .pure Expr.goes_error
  · have converted : Expr.Goes ρ P (if Conversion.between e.ty ty = .identity then e else .convert ty e)
        (if Conversion.between e.ty ty = .identity then e.rename ρ else .convert ty (e.rename ρ)) := by
      split
      · exact ⟨rfl, vars⟩
      · exact ⟨rfl, vars⟩
    split
    · exact .reported (Checked.report_ne_nil _ _) converted
    · exact .pure converted

/-- Whether a scope finds the variables that another one finds under other numbers, and the same
functions. -/
structure Scope.Goes (ρ : Renaming) (P : Nat → Prop) (s s' : Scope) : Prop where
  find : ∀ name, s'.find? name = (s.find? name).map ρ.var
  known : ∀ v ∈ s.vars, P v.id
  overloads : ∀ name, s'.overloads name = s.overloads name

theorem resolveName_goes {scope scope' : Scope} (goes : Scope.Goes ρ P scope scope')
    (name : Syntax.Name) :
    Checked.Goes (Expr.Goes ρ P) (resolveName scope name) (resolveName scope' name) := by
  unfold resolveName
  split
  · exact .pure Expr.goes_error
  · rw [goes.find]
    cases found : scope.find? name.text with
    | none => exact .reported (List.cons_ne_nil _ _) Expr.goes_error
    | some v =>
        refine .pure ⟨rfl, ?_⟩
        intro u member
        rw [List.mem_singleton.1 member]
        exact goes.known v (Scope.mem_vars_of_find? found)

theorem stepVariable_goes {operand operand' : Expr} (goes : operand.Goes ρ P operand') (op : BinaryOp)
    (span : Span) :
    Checked.Goes (Expr.Goes ρ P) (stepVariable op operand span) (stepVariable op operand' span) := by
  obtain ⟨rfl, vars⟩ := goes
  cases operand with
  | var v =>
      have known : P v.id := vars v List.mem_cons_self
      have stepped : Expr.Goes ρ P
          (.assign v (.binary (.var v) ⟨op, .int, .int, .int⟩ (.literal (.int 1))))
          (.assign (ρ.var v) (.binary (.var (ρ.var v)) ⟨op, .int, .int, .int⟩ (.literal (.int 1)))) := by
        refine ⟨rfl, ?_⟩
        intro u member
        simp only [Expr.vars, List.append_nil, List.mem_cons, List.not_mem_nil, or_false,
          or_self] at member
        rw [member]
        exact known
      rw [Expr.rename]
      unfold stepVariable
      dsimp only
      by_cases fixed : (!v.mutable) = true
      · rw [if_pos fixed, if_pos (show (!(ρ.var v).mutable) = true from fixed)]
        exact .reported (Checked.report_ne_nil _ _) stepped
      · rw [if_neg fixed, if_neg (show ¬ (!(ρ.var v).mutable) = true from fixed)]
        exact .pure stepped
  | _ => exact .reported (Checked.report_ne_nil _ _) Expr.goes_error

theorem applyUnary_goes {operand operand' : Expr} (goes : operand.Goes ρ P operand') (op : UnaryOp)
    (opSpan span : Span) :
    Checked.Goes (Expr.Goes ρ P) (applyUnary op opSpan operand span)
      (applyUnary op opSpan operand' span) := by
  have ty : operand'.ty = operand.ty := by rw [goes.1, Expr.ty_rename]
  unfold applyUnary Expr.isUnknown
  rw [ty]
  split
  · exact .pure Expr.goes_error
  · cases UnaryRule.find? op operand.ty with
    | none => exact .reported (Checked.report_ne_nil _ _) Expr.goes_error
    | some rule =>
        have plain : Expr.Goes ρ P (.unary rule operand) (.unary rule operand') := by
          refine ⟨?_, goes.2⟩
          rw [goes.1]
          rfl
        cases op with
        | increment => exact stepVariable_goes goes .add span
        | decrement => exact stepVariable_goes goes .sub span
        | _ => exact .pure plain

theorem applyBinary_goes {left left' right right' : Expr} (goesLeft : left.Goes ρ P left')
    (goesRight : right.Goes ρ P right') (op : BinaryOp) (opSpan : Span) :
    Checked.Goes (Expr.Goes ρ P) (applyBinary left op opSpan right)
      (applyBinary left' op opSpan right') := by
  obtain ⟨rfl, varsLeft⟩ := goesLeft
  obtain ⟨rfl, varsRight⟩ := goesRight
  unfold applyBinary Expr.isUnknown
  rw [Expr.ty_rename, Expr.ty_rename]
  split
  · exact .pure Expr.goes_error
  · cases BinaryRule.find? op left.ty right.ty with
    | none => exact .reported (Checked.report_ne_nil _ _) Expr.goes_error
    | some rule =>
        exact .pure ⟨rfl, List.forall_mem_append.2 ⟨varsLeft, varsRight⟩⟩

theorem assignTo_goes {scope scope' : Scope} (goes : Scope.Goes ρ P scope scope')
    (target : Syntax.Name) {value value' : Expr} (goesValue : value.Goes ρ P value') (span : Span) :
    Checked.Goes (Expr.Goes ρ P) (assignTo scope target value span)
      (assignTo scope' target value' span) := by
  unfold assignTo
  split
  · exact .pure Expr.goes_error
  · rw [goes.find]
    cases found : scope.find? target.text with
    | none => exact .reported (List.cons_ne_nil _ _) goesValue
    | some v =>
        have known := goes.known v (Scope.mem_vars_of_find? found)
        have assigned : Checked.Goes (Expr.Goes ρ P)
            (convertTo value span v.ty false >>= fun e => pure (.assign v e))
            (convertTo value' span v.ty false >>= fun e => pure (.assign (ρ.var v) e)) := by
          refine (convertTo_goes goesValue span v.ty false).bind fun e e' converted => .pure ?_
          obtain ⟨rfl, vars⟩ := converted
          exact ⟨rfl, List.forall_mem_cons.2 ⟨known, vars⟩⟩
        dsimp only [Option.map]
        by_cases fixed : (!v.mutable) = true
        · rw [if_pos fixed, if_pos (show (!(ρ.var v).mutable) = true from fixed)]
          exact .reported (Checked.report_ne_nil _ _) assigned.value
        · rw [if_neg fixed, if_neg (show ¬ (!(ρ.var v).mutable) = true from fixed)]
          exact assigned

/-! ## Calls -/

/-- Whether expressions are others under other numbers, all of which are of some kind. -/
def Expr.GoAll (ρ : Renaming) (P : Nat → Prop) (args args' : List Expr) : Prop :=
  args' = args.map (Expr.rename ρ) ∧ ∀ e ∈ args, ∀ v ∈ e.vars, P v.id

theorem Expr.GoAll.nil : Expr.GoAll ρ P [] [] := ⟨rfl, List.forall_mem_nil _⟩

theorem Expr.GoAll.cons {e e' : Expr} {es es' : List Expr} (first : e.Goes ρ P e')
    (rest : Expr.GoAll ρ P es es') : Expr.GoAll ρ P (e :: es) (e' :: es') := by
  obtain ⟨rfl, vars⟩ := first
  obtain ⟨rfl, varsRest⟩ := rest
  exact ⟨rfl, List.forall_mem_cons.2 ⟨vars, varsRest⟩⟩

theorem callCost?_rename (ps : List Parameter) (args : List Expr) :
    callCost? ps (args.map (Expr.rename ρ)) = callCost? ps args := by
  induction ps generalizing args with
  | nil => rfl
  | cons p ps ih =>
      cases args with
      | nil => rfl
      | cons e es => simp only [List.map_cons, callCost?, Expr.ty_rename, ih]

theorem bestOverload?_rename (candidates : List Function) (args : List Expr) :
    bestOverload? candidates (args.map (Expr.rename ρ)) = bestOverload? candidates args := by
  simp only [bestOverload?, callCost?_rename]

theorem convertArg_goes {e e' : Expr} (goes : e.Goes ρ P e') (span : Span) (p : Parameter) :
    Checked.Goes (Expr.Goes ρ P) (convertArg span e p) (convertArg span e' p) := by
  unfold convertArg
  split
  · exact .pure goes
  · exact convertTo_goes goes span p.ty false

theorem convertArgs_goes {args args' : List Expr} (goes : Expr.GoAll ρ P args args')
    (spans : List Span) (ps : List Parameter) :
    Checked.Goes (Expr.GoAll ρ P) (convertArgs spans args ps) (convertArgs spans args' ps) := by
  obtain ⟨rfl, vars⟩ := goes
  induction spans, args, ps using convertArgs_induction with
  | ended spans args ps ended =>
      rw [convertArgs_ended ended, convertArgs_ended (by simpa using ended)]
      exact .pure Expr.GoAll.nil
  | more span spans e es p ps ih =>
      rw [List.forall_mem_cons] at vars
      rw [List.map_cons, convertArgs_bind, convertArgs_bind]
      apply (convertArg_goes ⟨rfl, vars.1⟩ span p).bind
      intro first first' goesFirst
      exact (ih vars.2).bind fun rest rest' goesRest => .pure (.cons goesFirst goesRest)

theorem applyOverloads_goes {args args' : List Expr} (goes : Expr.GoAll ρ P args args')
    (overloads : List Function) (callee : Syntax.Name) (spans : List Span) (span : Span) :
    Checked.Goes (Expr.Goes ρ P) (applyOverloads overloads callee spans args span)
      (applyOverloads overloads callee spans args' span) := by
  have unknown : args'.any Expr.isUnknown = args.any Expr.isUnknown := by
    rw [goes.1, List.any_map]
    congr 1
    funext e
    rw [Function.comp_apply, Expr.isUnknown, Expr.ty_rename, Expr.isUnknown]
  have length : args'.length = args.length := by rw [goes.1, List.length_map]
  have best : ∀ fs, bestOverload? fs args' = bestOverload? fs args := by
    intro fs
    rw [goes.1, bestOverload?_rename]
  unfold applyOverloads
  rw [unknown, length]
  by_cases known : args.any Expr.isUnknown = true
  · rw [if_pos known, if_pos known]
    exact .pure Expr.goes_error
  · rw [if_neg known, if_neg known]
    cases overloads.filter fun f => f.parameters.length = args.length with
    | nil =>
        cases overloads with
        | nil => exact .pure Expr.goes_error
        | cons f rest => exact ⟨Expr.goes_error, fun clean => clean⟩
    | cons f rest =>
        dsimp only
        rw [best]
        cases bestOverload? (f :: rest) args with
        | some g =>
            refine (convertArgs_goes goes spans g.parameters).bind fun es es' converted => .pure ?_
            obtain ⟨rfl, vars⟩ := converted
            refine ⟨by rw [Expr.rename, Expr.renameAll_eq_map], ?_⟩
            intro v member
            obtain ⟨e, inside, there⟩ := Expr.mem_varsOf.1 member
            exact vars e inside v there
        | none =>
            cases rest with
            | nil =>
                exact (convertArgs_goes goes spans f.parameters).bind fun _ _ _ => .pure Expr.goes_error
            | cons g rest => exact .reported (Checked.report_ne_nil _ _) Expr.goes_error

/-- Requiring a value does the same under other numbers. -/
theorem Checked.Goes.value_of {scope scope' : Scope} {e : Syntax.Expr}
    (goes : Checked.Goes (Expr.Goes ρ P) (resolve scope e) (resolve scope' e)) :
    Checked.Goes (Expr.Goes ρ P) (resolveValue scope e) (resolveValue scope' e) :=
  goes.bind fun _ _ bound => requireValue_goes bound e.span

theorem resolveArgs_goes {scope scope' : Scope} {args : List Syntax.Expr}
    (each : ∀ e ∈ args, Checked.Goes (Expr.Goes ρ P) (resolve scope e) (resolve scope' e)) :
    Checked.Goes (Expr.GoAll ρ P) (resolveArgs scope args) (resolveArgs scope' args) := by
  induction args with
  | nil =>
      rw [resolveArgs, resolveArgs]
      exact .pure Expr.GoAll.nil
  | cons e es ih =>
      rw [List.forall_mem_cons] at each
      rw [resolveArgs_cons, resolveArgs_cons]
      apply each.1.value_of.bind
      intro first first' goesFirst
      exact (ih each.2).bind fun rest rest' goesRest => .pure (.cons goesFirst goesRest)

/-- An expression resolves to the same expression under other numbers. -/
theorem resolve_goes {scope scope' : Scope} (goes : Scope.Goes ρ P scope scope') (e : Syntax.Expr) :
    Checked.Goes (Expr.Goes ρ P) (resolve scope e) (resolve scope' e) := by
  induction e using Syntax.Expr.induction with
  | literal span value =>
      rw [resolve, resolve]
      exact .pure (.of_vars rfl rfl)
  | name name =>
      rw [resolve, resolve]
      exact resolveName_goes goes name
  | unary span op opSpan operand ih =>
      rw [resolve_unary, resolve_unary]
      exact ih.value_of.bind fun _ _ bound => applyUnary_goes bound op opSpan operand.span
  | binary span left op opSpan right ihLeft ihRight =>
      rw [resolve_binary, resolve_binary]
      apply ihLeft.value_of.bind
      intro _ _ goesLeft
      exact ihRight.value_of.bind fun _ _ goesRight => applyBinary_goes goesLeft goesRight op opSpan
  | assign span target value ih =>
      rw [resolve_assign, resolve_assign]
      exact ih.value_of.bind fun _ _ bound => assignTo_goes goes target bound value.span
  | call span callee args ih =>
      rcases call_cases callee args with ⟨ty, arg, named, rfl⟩ | plain
      · rw [resolve_cast named, resolve_cast named]
        exact (ih arg List.mem_cons_self).value_of.bind fun _ _ bound =>
          convertTo_goes bound arg.span ty true
      · rw [resolve_plain plain, resolve_plain plain, goes.overloads]
        split
        · exact .reported (List.cons_ne_nil _ _) Expr.goes_error
        · exact (resolveArgs_goes ih).bind fun _ _ bound =>
            applyOverloads_goes bound _ callee (args.map Syntax.Expr.span) span
  | paren span inner ih =>
      rw [resolve, resolve]
      exact ih

theorem resolveValue_goes {scope scope' : Scope} (goes : Scope.Goes ρ P scope scope')
    (e : Syntax.Expr) :
    Checked.Goes (Expr.Goes ρ P) (resolveValue scope e) (resolveValue scope' e) :=
  (resolve_goes goes e).value_of

theorem resolveTo_goes {scope scope' : Scope} (goes : Scope.Goes ρ P scope scope') (e : Syntax.Expr)
    (ty : Ty) : Checked.Goes (Expr.Goes ρ P) (resolveTo scope e ty) (resolveTo scope' e ty) :=
  (resolveValue_goes goes e).bind fun _ _ bound => convertTo_goes bound e.span ty false

/-! ## What statements do to a scope -/

/-- Whether a scope is another one with more variables in its innermost block. -/
def Scope.Extends (s s' : Scope) : Prop := ∃ vs, s' = s.extend vs

theorem Scope.Extends.refl (s : Scope) : Scope.Extends s s := ⟨[], s.extend_nil.symm⟩

theorem Scope.Extends.of_eq {s s' : Scope} (same : s' = s) : Scope.Extends s s' := same ▸ .refl _

theorem Scope.Extends.trans {s s' s'' : Scope} (first : Scope.Extends s s')
    (second : Scope.Extends s' s'') : Scope.Extends s s'' := by
  obtain ⟨vs, rfl⟩ := first
  obtain ⟨us, rfl⟩ := second
  exact ⟨vs ++ us, s.extend_extend vs us⟩

/-- Leaving a block takes back what was declared in it. -/
theorem Scope.Extends.pop {s s' : Scope} (inside : Scope.Extends s.push s') : s'.pop = s := by
  obtain ⟨vs, rfl⟩ := inside
  exact s.pop_push_extend vs

theorem Binder.declare_extends (b : Binder) (name : Syntax.Name) (mutable : Bool) (ty : Ty) :
    Scope.Extends b.scope (b.declare name mutable ty).2.scope := by
  rcases b.declare_cases name mutable ty with ⟨-, eq⟩ | ⟨-, eq⟩ | ⟨-, eq⟩
  · exact eq ▸ .refl _
  · exact eq ▸ .refl _
  · exact eq ▸ ⟨[_], rfl⟩

theorem bindStmts_extends {body : List Syntax.Stmt}
    (each : ∀ s ∈ body, ∀ b, Scope.Extends b.scope (bindStmt s b).2.scope) (b : Binder) :
    Scope.Extends b.scope (bindStmts body b).2.scope := by
  induction body generalizing b with
  | nil =>
      rw [bindStmts_nil]
      exact .refl _
  | cons s ss ih =>
      rw [List.forall_mem_cons] at each
      rw [bindStmts_cons]
      exact (each.1 b).trans (ih each.2 _)

theorem bindBlock_scope {body : Syntax.Block}
    (each : ∀ s ∈ body.statements, ∀ b, Scope.Extends b.scope (bindStmt s b).2.scope) (b : Binder) :
    (bindBlock body b).2.scope = b.scope := by
  rw [bindBlock_eq]
  exact (bindStmts_extends each b.enter).pop

/-- A statement declares variables in the innermost block, and leaves the blocks around it alone. -/
theorem bindStmt_extends (s : Syntax.Stmt) (b : Binder) :
    Scope.Extends b.scope (bindStmt s b).2.scope := by
  induction s using Syntax.Stmt.induction generalizing b with
  | block body ih =>
      rw [bindStmt]
      exact .of_eq (bindBlock_scope ih b)
  | var span name mutable ty init =>
      rw [bindStmt_var]
      exact (Scope.Extends.of_eq (firstValue_scope ty init b)).trans (Binder.declare_extends _ _ _ _)
  | ifThen span test yes ih =>
      rw [bindStmt_ifThen]
      exact .of_eq (bindBlock_scope ih _)
  | ifElse span test yes no ihYes ihNo =>
      rw [bindStmt_ifElse]
      exact .of_eq ((bindBlock_scope ihNo _).trans (bindBlock_scope ihYes _))
  | whileLoop span test body ih =>
      cases test with
      | none =>
          rw [bindStmt_whileLoop_none]
          exact .of_eq (bindBlock_scope ih b)
      | some test =>
          rw [bindStmt_whileLoop_some]
          exact .of_eq (bindBlock_scope ih _)
  | doWhile span body test ih =>
      rw [bindStmt_doWhile]
      exact .of_eq (bindBlock_scope ih b)
  | forTo span var mutable lower upper body ih =>
      rw [bindStmt_forTo]
      refine .of_eq (Scope.Extends.pop (s := b.scope) ?_)
      refine Scope.Extends.trans ?_ (.of_eq (bindBlock_scope ih _))
      exact Binder.declare_extends _ _ _ _
  | expr e =>
      rw [bindStmt_expr]
      exact .refl _

theorem extends_all (body : List Syntax.Stmt) (b : Binder) :
    Scope.Extends b.scope (bindStmts body b).2.scope :=
  bindStmts_extends (fun s _ => bindStmt_extends s) b

theorem bindBlock_same (body : Syntax.Block) (b : Binder) : (bindBlock body b).2.scope = b.scope :=
  bindBlock_scope (fun s _ => bindStmt_extends s) b

/-- A block after a declaration takes back what is declared in it, but not that declaration. -/
theorem declare_bindBlock_extends (b : Binder) (name : Syntax.Name) (mutable : Bool) (ty : Ty)
    (body : Syntax.Block) :
    Scope.Extends b.scope (bindBlock body (b.declare name mutable ty).2).2.scope :=
  (Binder.declare_extends _ _ _ _).trans (.of_eq (bindBlock_same _ _))

/-- Only a declaration changes the scope. -/
theorem bindStmt_same {s : Syntax.Stmt}
    (other : ∀ span name mutable ty init, s ≠ .var span name mutable ty init) (b : Binder) :
    (bindStmt s b).2.scope = b.scope := by
  cases s with
  | block body =>
      rw [bindStmt]
      exact bindBlock_same body b
  | var span name mutable ty init => exact absurd rfl (other span name mutable ty init)
  | ifThen span test yes =>
      rw [bindStmt_ifThen]
      exact bindBlock_same yes _
  | ifElse span test yes no =>
      rw [bindStmt_ifElse]
      exact (bindBlock_same no _).trans (bindBlock_same yes _)
  | whileLoop span test body =>
      cases test with
      | none =>
          rw [bindStmt_whileLoop_none]
          exact bindBlock_same body b
      | some test =>
          rw [bindStmt_whileLoop_some]
          exact bindBlock_same body _
  | doWhile span body test =>
      rw [bindStmt_doWhile]
      exact bindBlock_same body b
  | forTo span var mutable lower upper body =>
      rw [bindStmt_forTo]
      refine Scope.Extends.pop (s := b.scope) ?_
      exact .trans (Binder.declare_extends _ _ _ _) (.of_eq (bindBlock_same body _))
  | expr e =>
      rw [bindStmt_expr]
      rfl

/-! ## Statements without jumps -/

theorem bindStmts_structured {body : List Syntax.Stmt}
    (each : ∀ s ∈ body, ∀ b, (bindStmt s b).1.isStructured = true) (b : Binder) :
    Stmt.areStructured (bindStmts body b).1 = true := by
  induction body generalizing b with
  | nil => rw [bindStmts_nil]; rfl
  | cons s ss ih =>
      rw [List.forall_mem_cons] at each
      rw [bindStmts_cons, Stmt.areStructured, each.1, ih each.2]
      rfl

theorem bindBlock_structured {body : Syntax.Block}
    (each : ∀ s ∈ body.statements, ∀ b, (bindStmt s b).1.isStructured = true) (b : Binder) :
    (bindBlock body b).1.isStructured = true := by
  rw [bindBlock_eq, Stmt.isStructured]
  exact bindStmts_structured each _

/-- Binding makes no jumps. -/
theorem bindStmt_structured (s : Syntax.Stmt) (b : Binder) : (bindStmt s b).1.isStructured = true := by
  induction s using Syntax.Stmt.induction generalizing b with
  | block body ih =>
      rw [bindStmt]
      exact bindBlock_structured ih b
  | var span name mutable ty init => rw [bindStmt_var]; rfl
  | ifThen span test yes ih =>
      rw [bindStmt_ifThen]
      exact bindBlock_structured ih _
  | ifElse span test yes no ihYes ihNo =>
      rw [bindStmt_ifElse]
      dsimp only
      rw [Stmt.isStructured, bindBlock_structured ihYes, bindBlock_structured ihNo]
      rfl
  | whileLoop span test body ih =>
      cases test with
      | none =>
          rw [bindStmt_whileLoop_none]
          exact bindBlock_structured ih b
      | some test =>
          rw [bindStmt_whileLoop_some]
          exact bindBlock_structured ih _
  | doWhile span body test ih =>
      rw [bindStmt_doWhile]
      exact bindBlock_structured ih b
  | forTo span var mutable lower upper body ih =>
      rw [bindStmt_forTo]
      exact bindBlock_structured ih _
  | expr e => rw [bindStmt_expr]; rfl

end Bound

/-! ## Binders -/

/-- The numbers from one on, moved to other ones in the same order. -/
def Renaming.shift (first target : Nat) : Renaming :=
  ⟨fun i => if i < first then i else target + (i - first), fun name => name⟩

theorem Renaming.shift_succ {first target i : Nat} (le : first ≤ i) :
    (shift first target).id (i + 1) = (shift first target).id i + 1 := by
  have later : ¬ i + 1 < first := by omega
  have now : ¬ i < first := by omega
  simp only [shift, later, now, if_false]
  omega

theorem Scope.find?_extend {s : Scope} {v : Variable} (new : s.inner.find? v.name = none)
    (name : String) :
    (s.extend [v]).find? name = if v.name = name then some v else s.find? name := by
  unfold Scope.find? Scope.extend Scope.frames Frame.find? at *
  simp only [List.findSome?_cons, List.find?_append]
  by_cases same : v.name = name
  · subst same
    simp [new]
  · simp [same]

namespace Bound

/-- Whether a binder knows what another one knows under moved numbers.  The innermost block of the
first may have variables already that are in another block of the second. -/
structure Binder.Goes (first target : Nat) (P : Nat → Prop) (base : List Variable)
    (b b' : Binder) : Prop where
  scope : Scope.Goes (.shift first target) P b.scope b'.scope
  inner : ∃ new, b.scope.inner.vars = base ++ new ∧
    b'.scope.inner.vars = new.map (Renaming.shift first target).var
  nextId : b'.nextId = (Renaming.shift first target).id b.nextId
  above : first ≤ b.nextId
  clean : b'.problems = []

namespace Binder.Goes

variable {first target last : Nat} {P : Nat → Prop} {base : List Variable} {b b' : Binder}

theorem check (goes : Binder.Goes first target P base b b') (f f' : Scope → Checked Expr)
    (follows : Checked.Goes (Expr.Goes (.shift first target) P) (f b.scope) (f' b'.scope))
    (clean : (b.check f).2.problems = []) :
    (b.check f).1.Goes (.shift first target) P (b'.check f').1 ∧
      Binder.Goes first target P base (b.check f).2 (b'.check f').2 := by
  obtain ⟨-, checked⟩ := Binder.check_clean clean
  refine ⟨follows.value, goes.scope, goes.inner, goes.nextId, goes.above, ?_⟩
  show b'.problems ++ (f' b'.scope).problems = []
  rw [goes.clean, follows.clean checked]
  rfl

/-- A condition or a bound. -/
theorem checkTo (goes : Binder.Goes first target P base b b') {e : Syntax.Expr} {ty : Ty}
    (clean : (b.check (resolveTo · e ty)).2.problems = []) :
    (b.check (resolveTo · e ty)).1.Goes (.shift first target) P (b'.check (resolveTo · e ty)).1 ∧
      Binder.Goes first target P base (b.check (resolveTo · e ty)).2
        (b'.check (resolveTo · e ty)).2 :=
  goes.check (resolveTo · e ty) (resolveTo · e ty) (resolveTo_goes goes.scope e ty) clean

theorem enter (goes : Binder.Goes first target P base b b') :
    Binder.Goes first target P [] b.enter b'.enter where
  scope := by
    refine ⟨goes.scope.find, ?_, goes.scope.overloads⟩
    show ∀ v ∈ b.scope.push.vars, P v.id
    rw [Scope.vars_push]
    exact goes.scope.known
  inner := ⟨[], rfl, rfl⟩
  nextId := goes.nextId
  above := goes.above
  clean := goes.clean

/-- After a block, what was known before it is known. -/
theorem leave (goes : Binder.Goes first target P base b b') {inside : List Variable} {c c' : Binder}
    (after : Binder.Goes first target P inside c c') (grown : Scope.Extends b.scope.push c.scope)
    (grown' : Scope.Extends b'.scope.push c'.scope) :
    Binder.Goes first target P base c.leave c'.leave where
  scope := by
    show Scope.Goes _ P c.scope.pop c'.scope.pop
    rw [grown.pop, grown'.pop]
    exact goes.scope
  inner := by
    show ∃ new, c.scope.pop.inner.vars = _ ∧ c'.scope.pop.inner.vars = _
    rw [grown.pop, grown'.pop]
    exact goes.inner
  nextId := after.nextId
  above := after.above
  clean := after.clean

theorem declaredType (goes : Binder.Goes first target P base b b') {init init' : Expr}
    (same : init'.ty = init.ty) {ty : Option Syntax.Name}
    (clean : (Bound.declaredType b ty init).2.problems = []) :
    (Bound.declaredType b' ty init').1 = (Bound.declaredType b ty init).1 ∧
      Binder.Goes first target P base (Bound.declaredType b ty init).2
        (Bound.declaredType b' ty init').2 := by
  unfold Bound.declaredType at clean ⊢
  cases ty with
  | none => exact ⟨same, goes⟩
  | some written =>
      unfold Binder.resolveType at clean ⊢
      dsimp only at clean ⊢
      cases named : Ty.ofName? written.text with
      | some ty => exact ⟨rfl, goes⟩
      | none =>
          rw [named] at clean
          simp [Binder.report] at clean

/-- A variable with a number of that kind and a name that is new in both blocks. -/
theorem extend (goes : Binder.Goes first target P base b b') {v v' : Variable} (known : P v.id)
    (new : b.scope.inner.find? v.name = none) (new' : b'.scope.inner.find? v.name = none)
    (renamed : v' = (Renaming.shift first target).var v) :
    Binder.Goes first target P base { b with scope := b.scope.extend [v] }
      { b' with scope := b'.scope.extend [v'] } where
  scope := by
    subst renamed
    refine ⟨fun name => ?_, ?_, goes.scope.overloads⟩
    · rw [Scope.find?_extend (s := b.scope) new,
        Scope.find?_extend (s := b'.scope) (v := (Renaming.shift first target).var v) new',
        goes.scope.find]
      by_cases same : v.name = name
      · rw [if_pos same, if_pos (show ((Renaming.shift first target).var v).name = name from same)]
        rfl
      · rw [if_neg same, if_neg (show ¬ ((Renaming.shift first target).var v).name = name from same)]
    · intro u member
      rcases Scope.mem_vars_extend.1 member with old | here
      · exact goes.scope.known u old
      · rw [List.mem_singleton.1 here]
        exact known
  inner := by
    obtain ⟨added, inner, inner'⟩ := goes.inner
    refine ⟨added ++ [v], ?_, ?_⟩
    · show b.scope.inner.vars ++ [v] = _
      rw [inner, List.append_assoc]
    · show b'.scope.inner.vars ++ [v'] = _
      rw [inner', List.map_append, renamed]
      rfl
  nextId := goes.nextId
  above := goes.above
  clean := goes.clean

theorem count (goes : Binder.Goes first target P base b b') :
    Binder.Goes first target P base { b with nextId := b.nextId + 1 }
      { b' with nextId := b'.nextId + 1 } where
  scope := goes.scope
  inner := goes.inner
  nextId := by
    show b'.nextId + 1 = (Renaming.shift first target).id (b.nextId + 1)
    rw [Renaming.shift_succ goes.above, goes.nextId]
  above := Nat.le_succ_of_le goes.above
  clean := goes.clean

theorem firstValue (goes : Binder.Goes first target P base b b') {ty : Option Syntax.Name}
    {init : Syntax.Expr} (clean : (Bound.firstValue ty init b).2.problems = []) :
    (Bound.firstValue ty init b').1.1 = (Bound.firstValue ty init b).1.1 ∧
      (Bound.firstValue ty init b).1.2.Goes (.shift first target) P
        (Bound.firstValue ty init b').1.2 ∧
      Binder.Goes first target P base (Bound.firstValue ty init b).2
        (Bound.firstValue ty init b').2 := by
  obtain ⟨-, cleanTy, -⟩ := firstValue_clean clean
  unfold Bound.firstValue at clean ⊢
  dsimp only at clean ⊢
  obtain ⟨goesInit, resolved⟩ := goes.check (resolveValue · init) (resolveValue · init)
    (resolveValue_goes goes.scope init) ((Binder.grows_declaredType _ _ _).clean cleanTy)
  have sameTy := (congrArg Expr.ty goesInit.1).trans (Expr.ty_rename _ _)
  obtain ⟨varTy, typed⟩ := resolved.declaredType sameTy cleanTy
  have converts := convertTo_goes goesInit init.span
    (Bound.declaredType (b.check (resolveValue · init)).2 ty
      (b.check (resolveValue · init)).1).1 false
  rw [varTy]
  exact ⟨rfl, typed.check (fun _ => _) (fun _ => _) converts clean⟩

end Binder.Goes

section

variable {first target last : Nat} {P : Nat → Prop} (fresh : ∀ i, first ≤ i → i < last → P i)
  {base : List Variable} {b b' : Binder}

include fresh

theorem Binder.Goes.declare (goes : Binder.Goes first target P base b b') {name : Syntax.Name}
    {mutable : Bool} {ty : Ty} (clean : (b.declare name mutable ty).2.problems = [])
    (low : b.nextId < last) :
    (b'.declare name mutable ty).1 = (Renaming.shift first target).var (b.declare name mutable ty).1 ∧
      P (b.declare name mutable ty).1.id ∧
      Binder.Goes first target P base (b.declare name mutable ty).2 (b'.declare name mutable ty).2 := by
  have known : P b.nextId := fresh b.nextId goes.above low
  rw [Binder.declare_variable, Binder.declare_variable, goes.nextId]
  refine ⟨rfl, known, ?_⟩
  cases missing : name.isMissing with
  | true =>
      rw [Binder.declare_missing missing, Binder.declare_missing missing]
      exact goes.count
  | false =>
      obtain ⟨-, free, new⟩ := Binder.declare_clean missing clean
      obtain ⟨added, inner, inner'⟩ := goes.inner
      have free' : b'.scope.function? name.text = none := by
        rw [Scope.function?, goes.scope.overloads]
        exact free
      have new' : b'.scope.inner.find? name.text = none := by
        rw [Frame.find?, inner, List.find?_append, Option.or_eq_none_iff] at new
        rw [Frame.find?, inner', List.find?_map, Option.map_eq_none_iff]
        exact new.2
      rw [Binder.declare_free missing free new, Binder.declare_free missing free' new']
      have renamed : (⟨b'.nextId, name.text, ty, mutable, some name.span⟩ : Variable) =
          (Renaming.shift first target).var ⟨b.nextId, name.text, ty, mutable, some name.span⟩ := by
        rw [goes.nextId]
        rfl
      exact (goes.extend known new new' renamed).count

/-- Whether a bound statement, with the binder after it, is another one under moved numbers. -/
structure Rebinds (first target : Nat) (P : Nat → Prop) (base : List Variable)
    (o o' : Stmt × Binder) : Prop where
  stmt : o'.1 = o.1.rename (.shift first target)
  vars : ∀ v ∈ o.1.vars, P v.id
  after : Binder.Goes first target P base o.2 o'.2

/-- Whether bound statements, with the binder after them, are others under moved numbers. -/
structure RebindsAll (first target : Nat) (P : Nat → Prop) (base : List Variable)
    (o o' : List Stmt × Binder) : Prop where
  body : o'.1 = o.1.map (Stmt.rename (.shift first target))
  vars : ∀ v ∈ Stmt.varsOf o.1, P v.id
  after : Binder.Goes first target P base o.2 o'.2

omit fresh in
theorem bindStmts_rebinds {body : List Syntax.Stmt}
    (each : ∀ s ∈ body, ∀ b b', Binder.Goes first target P base b b' →
      (bindStmt s b).2.problems = [] → (bindStmt s b).2.nextId ≤ last →
      Rebinds first target P base (bindStmt s b) (bindStmt s b'))
    (goes : Binder.Goes first target P base b b') (clean : (bindStmts body b).2.problems = [])
    (low : (bindStmts body b).2.nextId ≤ last) :
    RebindsAll first target P base (bindStmts body b) (bindStmts body b') := by
  induction body generalizing b b' with
  | nil =>
      rw [bindStmts_nil, bindStmts_nil]
      exact ⟨rfl, List.forall_mem_nil _, goes⟩
  | cons s ss ih =>
      rw [List.forall_mem_cons] at each
      rw [bindStmts_cons] at clean low
      rw [bindStmts_cons, bindStmts_cons]
      have grows := grows_all ss (bindStmt s b).2
      have here := each.1 b b' goes (grows.clean clean) (Nat.le_trans grows.nextId low)
      have rest := ih each.2 here.after clean low
      refine ⟨?_, List.forall_mem_append.2 ⟨here.vars, rest.vars⟩, rest.after⟩
      rw [here.stmt, rest.body]
      rfl

omit fresh in
theorem bindBlock_rebinds {body : Syntax.Block}
    (each : ∀ s ∈ body.statements, ∀ b b', Binder.Goes first target P [] b b' →
      (bindStmt s b).2.problems = [] → (bindStmt s b).2.nextId ≤ last →
      Rebinds first target P [] (bindStmt s b) (bindStmt s b'))
    (goes : Binder.Goes first target P base b b') (clean : (bindBlock body b).2.problems = [])
    (low : (bindBlock body b).2.nextId ≤ last) :
    Rebinds first target P base (bindBlock body b) (bindBlock body b') := by
  rw [bindBlock_eq] at clean low
  rw [bindBlock_eq, bindBlock_eq]
  have inner := bindStmts_rebinds each goes.enter clean low
  refine ⟨?_, inner.vars, goes.leave inner.after ?_ ?_⟩
  · rw [inner.body, Stmt.rename, Stmt.renameAll_eq_map]
  · exact extends_all _ b.enter
  · exact extends_all _ b'.enter

/-- A statement that binds without a problem binds to the same statement under moved numbers. -/
theorem bindStmt_rebinds (s : Syntax.Stmt) (base : List Variable) (b b' : Binder)
    (goes : Binder.Goes first target P base b b') (clean : (bindStmt s b).2.problems = [])
    (low : (bindStmt s b).2.nextId ≤ last) :
    Rebinds first target P base (bindStmt s b) (bindStmt s b') := by
  induction s using Syntax.Stmt.induction generalizing base b b' with
  | block body ih =>
      rw [bindStmt] at clean low
      rw [bindStmt, bindStmt]
      exact bindBlock_rebinds (fun s member => ih s member []) goes clean low
  | var span name mutable ty init =>
      rw [bindStmt_var] at clean low
      rw [bindStmt_var, bindStmt_var]
      dsimp only at clean low ⊢
      obtain ⟨varTy, goesFirst, valued⟩ :=
        goes.firstValue ((Binder.grows_declare _ _ _ _).clean clean)
      rw [varTy]
      rw [Binder.declare_nextId] at low
      obtain ⟨moved, known, after⟩ := valued.declare fresh clean (Nat.lt_of_succ_le low)
      refine ⟨?_, List.forall_mem_cons.2 ⟨known, goesFirst.2⟩, after⟩
      rw [goesFirst.1, moved, Stmt.rename]
  | ifThen span test yes ih =>
      rw [bindStmt_ifThen] at clean low
      rw [bindStmt_ifThen, bindStmt_ifThen]
      dsimp only at clean low ⊢
      have cleanTest := (grows_block yes _).clean clean
      obtain ⟨goesTest, first⟩ := goes.checkTo cleanTest
      have inner := bindBlock_rebinds (fun s member => ih s member []) first clean low
      refine ⟨?_, List.forall_mem_append.2 ⟨goesTest.2, inner.vars⟩, inner.after⟩
      rw [goesTest.1, inner.stmt, Stmt.rename]
  | ifElse span test yes no ihYes ihNo =>
      rw [bindStmt_ifElse] at clean low
      rw [bindStmt_ifElse, bindStmt_ifElse]
      dsimp only at clean low ⊢
      have cleanYes := (grows_block no _).clean clean
      have lowYes := Nat.le_trans (grows_block no _).nextId low
      have cleanTest := (grows_block yes _).clean cleanYes
      obtain ⟨goesTest, first⟩ := goes.checkTo cleanTest
      have inYes := bindBlock_rebinds (fun s member => ihYes s member []) first cleanYes lowYes
      have inNo := bindBlock_rebinds (fun s member => ihNo s member []) inYes.after clean low
      have vars := List.forall_mem_append.2 ⟨goesTest.2, inYes.vars⟩
      refine ⟨?_, List.forall_mem_append.2 ⟨vars, inNo.vars⟩, inNo.after⟩
      rw [goesTest.1, inYes.stmt, inNo.stmt, Stmt.rename]
  | whileLoop span test body ih =>
      cases test with
      | none =>
          rw [bindStmt_whileLoop_none] at clean low
          rw [bindStmt_whileLoop_none, bindStmt_whileLoop_none]
          have inner := bindBlock_rebinds (fun s member => ih s member []) goes clean low
          refine ⟨?_, inner.vars, inner.after⟩
          rw [inner.stmt, Stmt.rename, Expr.rename]
      | some test =>
          rw [bindStmt_whileLoop_some] at clean low
          rw [bindStmt_whileLoop_some, bindStmt_whileLoop_some]
          dsimp only at clean low ⊢
          have cleanTest := (grows_block body _).clean clean
          obtain ⟨goesTest, first⟩ := goes.checkTo cleanTest
          have inner := bindBlock_rebinds (fun s member => ih s member []) first clean low
          refine ⟨?_, List.forall_mem_append.2 ⟨goesTest.2, inner.vars⟩, inner.after⟩
          rw [goesTest.1, inner.stmt, Stmt.rename]
  | doWhile span body test ih =>
      rw [bindStmt_doWhile] at clean low
      rw [bindStmt_doWhile, bindStmt_doWhile]
      dsimp only at clean low ⊢
      have cleanBody := (Binder.check_clean clean).1
      have inner := bindBlock_rebinds (fun s member => ih s member []) goes cleanBody low
      obtain ⟨goesTest, after⟩ := inner.after.checkTo clean
      refine ⟨?_, List.forall_mem_append.2 ⟨inner.vars, goesTest.2⟩, after⟩
      rw [goesTest.1, inner.stmt, Stmt.rename]
  | forTo span var mutable lower upper body ih =>
      rw [bindStmt_forTo] at clean low
      rw [bindStmt_forTo, bindStmt_forTo]
      dsimp only at clean low ⊢
      have cleanVar := (grows_block body _).clean clean
      have lowVar := Nat.le_trans (grows_block body _).nextId low
      rw [Binder.declare_nextId] at lowVar
      have cleanUpper := (Binder.grows_enter _).clean ((Binder.grows_declare _ _ _ _).clean cleanVar)
      have cleanLower := (Binder.check_clean cleanUpper).1
      obtain ⟨goesLower, first⟩ := goes.checkTo cleanLower
      obtain ⟨goesUpper, second⟩ := first.checkTo cleanUpper
      obtain ⟨moved, known, third⟩ := second.enter.declare fresh cleanVar (Nat.lt_of_succ_le lowVar)
      have inner := bindBlock_rebinds (fun s member => ih s member []) third clean low
      have bounds := List.forall_mem_append.2 ⟨goesLower.2, goesUpper.2⟩
      have vars := List.forall_mem_append.2 ⟨bounds, inner.vars⟩
      refine ⟨?_, List.forall_mem_cons.2 ⟨known, vars⟩, second.leave inner.after ?_ ?_⟩
      · rw [goesLower.1, goesUpper.1, moved, inner.stmt, Stmt.rename]
      · exact declare_bindBlock_extends _ _ _ _ _
      · exact declare_bindBlock_extends _ _ _ _ _
  | expr e =>
      rw [bindStmt_expr] at clean
      rw [bindStmt_expr, bindStmt_expr]
      obtain ⟨goesExpr, after⟩ := goes.check (resolve · e) (resolve · e) (resolve_goes goes.scope e)
        clean
      refine ⟨?_, goesExpr.2, after⟩
      rw [goesExpr.1, Stmt.rename]

end

end Bound

end ScriptLang
