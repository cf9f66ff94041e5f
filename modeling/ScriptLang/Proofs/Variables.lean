/-
# ScriptLang.Proofs.Variables -- the variables of bound programs

`vars` lists the variables that an expression or a statement mentions, and
`declared` those that a statement gives their first value.  `rename` puts other
variables in their places; it leaves types alone (`Expr.ty_rename`).

Expressions hold lists of expressions and blocks hold lists of statements, so
the two induction principles `Expr.induction` and `Stmt.induction` give their
hypothesis for every member of such a list.
-/
import ScriptLang.Flat.Lower
import ScriptLang.Proofs.Store

namespace ScriptLang.Bound

set_option autoImplicit false

/-! ## Induction -/

@[elab_as_elim]
theorem Expr.induction {motive : Expr → Prop}
    (literal : ∀ value, motive (.literal value))
    (unary : ∀ rule operand, motive operand → motive (.unary rule operand))
    (binary : ∀ left rule right, motive left → motive right → motive (.binary left rule right))
    (var : ∀ v, motive (.var v))
    (assign : ∀ v value, motive value → motive (.assign v value))
    (call : ∀ f args, (∀ e ∈ args, motive e) → motive (.call f args))
    (convert : ∀ ty e, motive e → motive (.convert ty e))
    (error : motive .error) (e : Expr) : motive e :=
  @Expr.rec motive (fun args => ∀ e ∈ args, motive e) literal unary binary var assign call convert
    error (fun _ member => nomatch member)
    (fun _ _ first rest => List.forall_mem_cons.2 ⟨first, rest⟩) e

@[elab_as_elim]
theorem Stmt.induction {motive : Stmt → Prop}
    (block : ∀ body, (∀ s ∈ body, motive s) → motive (.block body))
    (declare : ∀ v init, motive (.declare v init))
    (ifThen : ∀ test yes, motive yes → motive (.ifThen test yes))
    (ifElse : ∀ test yes no, motive yes → motive no → motive (.ifElse test yes no))
    (whileLoop : ∀ test body, motive body → motive (.whileLoop test body))
    (doWhile : ∀ body test, motive body → motive (.doWhile body test))
    (forTo : ∀ v lower upper body, motive body → motive (.forTo v lower upper body))
    (expr : ∀ e, motive (.expr e))
    (goto : ∀ target, motive (.goto target))
    (branch : ∀ target test when, motive (.branch target test when))
    (label : ∀ here, motive (.label here)) (s : Stmt) : motive s :=
  @Stmt.rec motive (fun body => ∀ s ∈ body, motive s) block declare ifThen ifElse whileLoop
    (fun body test => doWhile body test) forTo expr goto branch label (fun _ member => nomatch member)
    (fun _ _ first rest => List.forall_mem_cons.2 ⟨first, rest⟩) s

/-! ## Variables -/

mutual

/-- The variables of an expression. -/
def Expr.vars : Expr → List Variable
  | .literal _ | .error => []
  | .unary _ operand => operand.vars
  | .binary left _ right => left.vars ++ right.vars
  | .var v => [v]
  | .assign v value => v :: value.vars
  | .call _ args => Expr.varsOf args
  | .convert _ e => e.vars

def Expr.varsOf : List Expr → List Variable
  | [] => []
  | e :: es => e.vars ++ Expr.varsOf es

end

mutual

/-- The variables of a statement, those it declares among them. -/
def Stmt.vars : Stmt → List Variable
  | .block body => Stmt.varsOf body
  | .declare v init => v :: init.vars
  | .ifThen test yes => test.vars ++ yes.vars
  | .ifElse test yes no => test.vars ++ yes.vars ++ no.vars
  | .whileLoop test body => test.vars ++ body.vars
  | .doWhile body test => body.vars ++ test.vars
  | .forTo v lower upper body => v :: (lower.vars ++ upper.vars ++ body.vars)
  | .expr e => e.vars
  | .branch _ test _ => test.vars
  | .goto _ | .label _ => []

def Stmt.varsOf : List Stmt → List Variable
  | [] => []
  | s :: ss => s.vars ++ Stmt.varsOf ss

end

mutual

/-- The variables that a statement declares, in order; those of loops are among them. -/
def Stmt.declared : Stmt → List Variable
  | .block body => Stmt.declaredIn body
  | .declare v _ => [v]
  | .ifThen _ yes => yes.declared
  | .ifElse _ yes no => yes.declared ++ no.declared
  | .whileLoop _ body => body.declared
  | .doWhile body _ => body.declared
  | .forTo v _ _ body => v :: body.declared
  | .expr _ | .goto _ | .branch .. | .label _ => []

def Stmt.declaredIn : List Stmt → List Variable
  | [] => []
  | s :: ss => s.declared ++ Stmt.declaredIn ss

end

mutual

/-- Whether control flow is by blocks, branches and loops alone, without jumps. -/
def Stmt.isStructured : Stmt → Bool
  | .block body => Stmt.areStructured body
  | .declare .. | .expr _ => true
  | .ifThen _ yes => yes.isStructured
  | .ifElse _ yes no => yes.isStructured && no.isStructured
  | .whileLoop _ body => body.isStructured
  | .doWhile body _ => body.isStructured
  | .forTo _ _ _ body => body.isStructured
  | .goto _ | .branch .. | .label _ => false

def Stmt.areStructured : List Stmt → Bool
  | [] => true
  | s :: ss => s.isStructured && Stmt.areStructured ss

end

theorem Expr.mem_varsOf {v : Variable} {args : List Expr} :
    v ∈ Expr.varsOf args ↔ ∃ e ∈ args, v ∈ e.vars := by
  induction args with
  | nil => simp [Expr.varsOf]
  | cons e es ih => simp [Expr.varsOf, ih]

theorem Stmt.mem_varsOf {v : Variable} {body : List Stmt} :
    v ∈ Stmt.varsOf body ↔ ∃ s ∈ body, v ∈ s.vars := by
  induction body with
  | nil => simp [Stmt.varsOf]
  | cons s ss ih => simp [Stmt.varsOf, ih]

theorem Stmt.mem_declaredIn {v : Variable} {body : List Stmt} :
    v ∈ Stmt.declaredIn body ↔ ∃ s ∈ body, v ∈ s.declared := by
  induction body with
  | nil => simp [Stmt.declaredIn]
  | cons s ss ih => simp [Stmt.declaredIn, ih]

theorem Stmt.areStructured_iff {body : List Stmt} :
    Stmt.areStructured body = true ↔ ∀ s ∈ body, s.isStructured = true := by
  induction body with
  | nil => simp [Stmt.areStructured]
  | cons s ss ih => simp [Stmt.areStructured, ih]

/-! ## Renaming -/

mutual

/-- An expression with its variables renamed. -/
def Expr.rename (ρ : Renaming) : Expr → Expr
  | .literal value => .literal value
  | .unary rule operand => .unary rule (operand.rename ρ)
  | .binary left rule right => .binary (left.rename ρ) rule (right.rename ρ)
  | .var v => .var (ρ.var v)
  | .assign v value => .assign (ρ.var v) (value.rename ρ)
  | .call f args => .call f (Expr.renameAll ρ args)
  | .convert ty e => .convert ty (e.rename ρ)
  | .error => .error

def Expr.renameAll (ρ : Renaming) : List Expr → List Expr
  | [] => []
  | e :: es => e.rename ρ :: Expr.renameAll ρ es

end

mutual

/-- A statement with its variables renamed. -/
def Stmt.rename (ρ : Renaming) : Stmt → Stmt
  | .block body => .block (Stmt.renameAll ρ body)
  | .declare v init => .declare (ρ.var v) (init.rename ρ)
  | .ifThen test yes => .ifThen (test.rename ρ) (yes.rename ρ)
  | .ifElse test yes no => .ifElse (test.rename ρ) (yes.rename ρ) (no.rename ρ)
  | .whileLoop test body => .whileLoop (test.rename ρ) (body.rename ρ)
  | .doWhile body test => .doWhile (body.rename ρ) (test.rename ρ)
  | .forTo v lower upper body =>
      .forTo (ρ.var v) (lower.rename ρ) (upper.rename ρ) (body.rename ρ)
  | .expr e => .expr (e.rename ρ)
  | .goto target => .goto target
  | .branch target test when => .branch target (test.rename ρ) when
  | .label here => .label here

def Stmt.renameAll (ρ : Renaming) : List Stmt → List Stmt
  | [] => []
  | s :: ss => s.rename ρ :: Stmt.renameAll ρ ss

end

@[simp] theorem Expr.renameAll_eq_map (ρ : Renaming) (args : List Expr) :
    Expr.renameAll ρ args = args.map (Expr.rename ρ) := by
  induction args with
  | nil => rfl
  | cons e es ih => simp [Expr.renameAll, ih]

@[simp] theorem Stmt.renameAll_eq_map (ρ : Renaming) (body : List Stmt) :
    Stmt.renameAll ρ body = body.map (Stmt.rename ρ) := by
  induction body with
  | nil => rfl
  | cons s ss ih => simp [Stmt.renameAll, ih]

@[simp] theorem Expr.ty_rename (ρ : Renaming) (e : Expr) : (e.rename ρ).ty = e.ty := by
  induction e using Expr.induction with
  | assign v value ih => simpa [Expr.rename, Expr.ty] using ih
  | _ => rfl

@[simp] theorem Expr.rename_refl (e : Expr) : e.rename .refl = e := by
  induction e using Expr.induction with
  | call f args ih =>
      have same : args.map (Expr.rename .refl) = args := (List.map_congr_left ih).trans (List.map_id args)
      simp [Expr.rename, same]
  | _ => simp_all [Expr.rename]

end ScriptLang.Bound
