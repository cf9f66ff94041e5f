/-
# ScriptLang.Proofs.Framing -- which variables a submission can change

A text names the variables that it changes: those in front of an assignment, and
those that `++` and `--` step.  Some of these names mean variables that the text
declares itself.  The others are its targets, and mean variables of earlier
submissions (`Syntax.Stmt.targets`).

Binding looks every target up in the scope where it stands and refuses those that
are not `mut`.  So what a bound statement assigns to is `mut`, and is declared in
the statement or found under a target (`bindStmt_traced`); a run changes nothing
else of what was there before (`Stmt.interpret_frame`).  The hidden variables and
the loop variables that lowering assigns to have numbers that no variable of an
earlier submission has.

So a submission, however it ends, changes only `mut` variables under its targets,
and a variable without `mut` keeps the value that it was declared with.
-/
import Mathlib.Data.List.Nodup
import ScriptLang.Proofs.Respelling

namespace ScriptLang

set_option autoImplicit false

/-! ## Targets -/

namespace Syntax

mutual

/-- The variable that `++` or `--` in front of an expression steps.  Parentheses change nothing, and
a cast may be to the type that the variable has. -/
def Expr.stepped : Expr → List String
  | .name n => n.spelling
  | .paren _ inner => inner.stepped
  | .call _ callee args => if (Ty.ofName? callee.text).isSome then Expr.steppedAlone args else []
  | .literal .. | .unary .. | .binary .. | .assign .. => []

def Expr.steppedAlone : List Expr → List String
  | [e] => e.stepped
  | [] | _ :: _ :: _ => []

end

mutual

/-- The names that an expression assigns to. -/
def Expr.targets : Expr → List String
  | .literal .. | .name _ => []
  | .unary _ op _ operand => (if op.isStep then operand.stepped else []) ++ operand.targets
  | .binary _ left _ _ right => left.targets ++ right.targets
  | .assign _ target value => target.spelling ++ value.targets
  | .call _ _ args => Expr.targetsIn args
  | .paren _ inner => inner.targets

def Expr.targetsIn : List Expr → List String
  | [] => []
  | e :: es => e.targets ++ Expr.targetsIn es

end

/-- The name that a statement declares for those after it. -/
def Stmt.introduces : Stmt → List String
  | .var _ name _ _ _ => name.spelling
  | _ => []

mutual

/-- The names that a statement assigns to and does not declare before. -/
def Stmt.targets : Stmt → List String
  | .block body => body.targets
  | .var _ _ _ _ init => init.targets
  | .ifThen _ test yes => test.targets ++ yes.targets
  | .ifElse _ test yes no => test.targets ++ yes.targets ++ no.targets
  | .whileLoop _ none body => body.targets
  | .whileLoop _ (some test) body => test.targets ++ body.targets
  | .doWhile _ body test => body.targets ++ test.targets
  | .forTo _ var _ lower upper body =>
      lower.targets ++ upper.targets ++ body.targets.filter (· ∉ var.spelling)
  | .expr e => e.targets

def Block.targets : Block → List String
  | .mk _ statements => Stmt.targetsIn statements

def Stmt.targetsIn : List Stmt → List String
  | [] => []
  | s :: ss => s.targets ++ (Stmt.targetsIn ss).filter (· ∉ s.introduces)

end

/-- The names that a text assigns to and does not declare before. -/
def Tree.targets (t : Tree) : List String := Stmt.targetsIn t.root.statements

end Syntax

namespace Bound

/-! ## Expressions -/

/-- Whether what is made has a property, if there is no problem. -/
structure Checked.Gives {α : Type} (P : α → Prop) (c : Checked α) : Prop where
  value : c.problems = [] → P c.value

namespace Checked.Gives

variable {α β : Type} {P Q : α → Prop} {R : β → Prop}

theorem pure {a : α} (holds : P a) : Gives P (Pure.pure a) := ⟨fun _ => holds⟩

theorem mono {c : Checked α} (gives : Gives P c) (weaker : ∀ a, P a → Q a) : Gives Q c :=
  ⟨fun clean => weaker _ (gives.value clean)⟩

theorem bind {c : Checked α} {f : α → Checked β} (gives : Gives P c)
    (next : ∀ a, P a → Gives R (f a)) : Gives R (c >>= f) := by
  constructor
  intro clean
  obtain ⟨first, rest⟩ := List.append_eq_nil_iff.1 clean
  exact (next _ (gives.value first)).value rest

theorem reported {c : Checked Unit} {f : Unit → Checked α} (found : c.problems ≠ []) :
    Gives P (c >>= f) :=
  ⟨fun clean => absurd (List.append_eq_nil_iff.1 clean).1 found⟩

end Checked.Gives

/-- Whether a variable can be assigned to, and is found under one of some names. -/
def Target (scope : Scope) (names : List String) (u : Variable) : Prop :=
  u.mutable = true ∧ ∃ n ∈ names, scope.find? n = some u

theorem Target.mono {scope : Scope} {names names' : List String} {u : Variable}
    (target : Target scope names u) (sub : names ⊆ names') : Target scope names' u := by
  obtain ⟨mutable, n, listed, found⟩ := target
  exact ⟨mutable, n, sub listed, found⟩

/-- Whether a resolved expression assigns only to variables under some names, and, if it is a
variable itself, is found under others. -/
structure Expr.Traced (scope : Scope) (targets stepped : List String) (e : Expr) : Prop where
  assigned : ∀ u ∈ e.assigned, Target scope targets u
  var : ∀ v, e = .var v → ∃ n ∈ stepped, scope.find? n = some v

section

variable {scope : Scope} {targets stepped : List String}

namespace Expr.Traced

theorem error : Expr.Traced scope targets stepped .error where
  assigned := List.forall_mem_nil _
  var := fun _ same => nomatch same

/-- An expression that is no variable. -/
theorem of_assigned {e : Expr} (assigned : ∀ u ∈ e.assigned, Target scope targets u)
    (other : ∀ v, e ≠ .var v) : e.Traced scope targets stepped :=
  ⟨assigned, fun v same => absurd same (other v)⟩

theorem within {e : Expr} (traced : e.Traced scope targets stepped) {names : List String}
    (sub : targets ⊆ names) : ∀ u ∈ e.assigned, Target scope names u :=
  fun u member => (traced.assigned u member).mono sub

end Expr.Traced

theorem requireValue_traced {e : Expr} (traced : e.Traced scope targets stepped) (span : Span) :
    (requireValue span e).Gives (Expr.Traced scope targets stepped) := by
  unfold requireValue
  split
  · exact .reported (Checked.report_ne_nil _ _)
  · exact .pure traced

theorem convertTo_traced {e : Expr} (traced : e.Traced scope targets stepped) (span : Span) (ty : Ty)
    (cast : Bool) : (convertTo e span ty cast).Gives (Expr.Traced scope targets stepped) := by
  have converted : Expr.Traced scope targets stepped
      (if Conversion.between e.ty ty = .identity then e else .convert ty e) := by
    split
    · exact traced
    · exact .of_assigned traced.assigned fun _ same => nomatch same
  unfold convertTo
  dsimp only
  split
  · split
    · exact .reported (Checked.report_ne_nil _ _)
    · exact .pure .error
  · split
    · exact .reported (Checked.report_ne_nil _ _)
    · exact .pure converted

theorem resolveName_traced (name : Syntax.Name) :
    (resolveName scope name).Gives (Expr.Traced scope [] name.spelling) := by
  unfold resolveName
  cases here : name.isMissing with
  | true => exact .pure .error
  | false =>
      cases found : scope.find? name.text with
      | none => exact .reported (List.cons_ne_nil _ _)
      | some v =>
          refine .pure ⟨List.forall_mem_nil _, ?_⟩
          rintro _ ⟨⟩
          exact ⟨name.text, Syntax.Name.mem_spelling here, found⟩

theorem stepVariable_traced {operand : Expr} (traced : operand.Traced scope targets stepped)
    (op : BinaryOp) (span : Span) :
    (stepVariable op operand span).Gives (Expr.Traced scope (stepped ++ targets) []) := by
  cases operand with
  | var v =>
      unfold stepVariable
      dsimp only
      by_cases fixed : (!v.mutable) = true
      · rw [if_pos fixed]
        exact .reported (Checked.report_ne_nil _ _)
      · rw [if_neg fixed]
        refine .pure (Expr.Traced.of_assigned ?_ fun _ same => nomatch same)
        intro u member
        obtain ⟨n, listed, found⟩ := traced.var v rfl
        rw [List.mem_singleton.1 member]
        exact ⟨by simpa using fixed, n, List.mem_append.2 (.inl listed), found⟩
  | _ => exact .reported (Checked.report_ne_nil _ _)

theorem applyUnary_traced {operand : Expr} (traced : operand.Traced scope targets stepped)
    (op : UnaryOp) (opSpan span : Span) : (applyUnary op opSpan operand span).Gives
      (Expr.Traced scope ((if op.isStep then stepped else []) ++ targets) []) := by
  unfold applyUnary
  by_cases unknown : operand.isUnknown = true
  · rw [if_pos unknown]
    exact .pure .error
  · rw [if_neg unknown]
    cases UnaryRule.find? op operand.ty with
    | none => exact .reported (Checked.report_ne_nil _ _)
    | some rule =>
        have plain : Expr.Traced scope targets [] (.unary rule operand) :=
          .of_assigned traced.assigned fun _ same => nomatch same
        cases op with
        | increment => exact stepVariable_traced traced .add span
        | decrement => exact stepVariable_traced traced .sub span
        | _ => exact .pure plain

theorem applyBinary_traced {left right : Expr} {targets' stepped' : List String}
    (tracedLeft : left.Traced scope targets stepped)
    (tracedRight : right.Traced scope targets' stepped') (op : BinaryOp) (opSpan : Span) :
    (applyBinary left op opSpan right).Gives (Expr.Traced scope (targets ++ targets') []) := by
  unfold applyBinary
  split
  · exact .pure .error
  · split
    · refine .pure (Expr.Traced.of_assigned ?_ fun _ same => nomatch same)
      exact List.forall_mem_append.2 ⟨tracedLeft.within (List.subset_append_left _ _),
        tracedRight.within (List.subset_append_right _ _)⟩
    · exact .reported (Checked.report_ne_nil _ _)

theorem assignTo_traced (target : Syntax.Name) {value : Expr}
    (traced : value.Traced scope targets stepped) (span : Span) :
    (assignTo scope target value span).Gives
      (Expr.Traced scope (target.spelling ++ targets) []) := by
  unfold assignTo
  cases here : target.isMissing with
  | true => exact .pure .error
  | false =>
      cases found : scope.find? target.text with
      | none => exact .reported (List.cons_ne_nil _ _)
      | some v =>
          dsimp only
          by_cases fixed : (!v.mutable) = true
          · rw [if_pos fixed]
            exact .reported (Checked.report_ne_nil _ _)
          · rw [if_neg fixed]
            refine (convertTo_traced traced span v.ty false).bind fun converted traced => .pure ?_
            refine Expr.Traced.of_assigned ?_ fun _ same => nomatch same
            have listed : target.text ∈ target.spelling ++ targets :=
              List.mem_append.2 (.inl (Syntax.Name.mem_spelling here))
            exact List.forall_mem_cons.2 ⟨⟨by simpa using fixed, _, listed, found⟩,
              traced.within (List.subset_append_right _ _)⟩

/-! ### Calls -/

theorem convertArg_traced {e : Expr} (traced : e.Traced scope targets stepped) (span : Span)
    (p : Parameter) : (convertArg span e p).Gives (Expr.Traced scope targets stepped) := by
  unfold convertArg
  split
  · exact .pure traced
  · exact convertTo_traced traced span p.ty false

theorem convertArgs_traced {args : List Expr}
    (traced : ∀ e ∈ args, ∃ stepped, e.Traced scope targets stepped) (spans : List Span)
    (ps : List Parameter) : (convertArgs spans args ps).Gives fun converted =>
      ∀ u ∈ Expr.assignedIn converted, Target scope targets u := by
  induction spans, args, ps using convertArgs_induction with
  | ended spans args ps ended =>
      rw [convertArgs_ended ended]
      exact .pure (List.forall_mem_nil _)
  | more span spans e es p ps ih =>
      obtain ⟨⟨stepped, here⟩, others⟩ := List.forall_mem_cons.1 traced
      rw [convertArgs_bind]
      apply (convertArg_traced here span p).bind
      intro first tracedFirst
      exact (ih others).bind fun rest tracedRest =>
        .pure (List.forall_mem_append.2 ⟨tracedFirst.assigned, tracedRest⟩)

theorem applyOverloads_traced {args : List Expr}
    (traced : ∀ e ∈ args, ∃ stepped, e.Traced scope targets stepped) (overloads : List Function)
    (callee : Syntax.Name) (spans : List Span) (span : Span) :
    (applyOverloads overloads callee spans args span).Gives (Expr.Traced scope targets []) := by
  unfold applyOverloads
  split
  · exact .pure .error
  · split
    · split
      · exact .pure .error
      · exact ⟨fun _ => .error⟩
    · split
      · rename_i f _
        refine (convertArgs_traced traced spans f.parameters).bind fun converted traced => .pure ?_
        exact .of_assigned traced fun _ same => nomatch same
      · split
        · exact (convertArgs_traced traced spans _).bind fun _ _ => .pure .error
        · exact .reported (Checked.report_ne_nil _ _)

theorem Checked.Gives.value_of {e : Syntax.Expr}
    (traced : (resolve scope e).Gives (Expr.Traced scope e.targets e.stepped)) :
    (resolveValue scope e).Gives (Expr.Traced scope e.targets e.stepped) :=
  traced.bind fun _ traced => requireValue_traced traced e.span

theorem resolveArgs_traced {args : List Syntax.Expr}
    (each : ∀ e ∈ args, (resolve scope e).Gives (Expr.Traced scope e.targets e.stepped)) :
    (resolveArgs scope args).Gives
      (List.Forall₂ (fun e bound => Expr.Traced scope e.targets e.stepped bound) args) := by
  induction args with
  | nil =>
      rw [resolveArgs]
      exact .pure .nil
  | cons e es ih =>
      obtain ⟨first, others⟩ := List.forall_mem_cons.1 each
      rw [resolveArgs_cons]
      apply first.value_of.bind
      intro bound traced
      exact (ih others).bind fun _ tracedRest => .pure (.cons traced tracedRest)

/-- An argument assigns to what the arguments assign to. -/
theorem traced_of_args {args : List Syntax.Expr} {bound : List Expr}
    (traced : List.Forall₂ (fun e bound => Expr.Traced scope e.targets e.stepped bound) args bound) :
    ∀ e ∈ bound, ∃ stepped, e.Traced scope (Syntax.Expr.targetsIn args) stepped := by
  induction traced with
  | nil => exact List.forall_mem_nil _
  | @cons e first es rest here there ih =>
      refine List.forall_mem_cons.2 ⟨⟨e.stepped, ?_, here.var⟩, ?_⟩
      · exact here.within (List.subset_append_left _ _)
      · intro e member
        obtain ⟨stepped, traced⟩ := ih e member
        exact ⟨stepped, traced.within (List.subset_append_right _ _), traced.var⟩

/-- What an expression resolves to assigns only to its targets, if there is no problem. -/
theorem resolve_traced (e : Syntax.Expr) :
    (resolve scope e).Gives (Expr.Traced scope e.targets e.stepped) := by
  induction e using Syntax.Expr.induction with
  | literal span value =>
      rw [resolve]
      refine .pure (Expr.Traced.of_assigned (List.forall_mem_nil _) ?_)
      rintro v ⟨⟩
  | name name =>
      rw [resolve]
      exact resolveName_traced name
  | unary span op opSpan operand ih =>
      rw [resolve_unary]
      exact ih.value_of.bind fun _ traced => applyUnary_traced traced op opSpan operand.span
  | binary span left op opSpan right ihLeft ihRight =>
      rw [resolve_binary]
      apply ihLeft.value_of.bind
      intro boundLeft tracedLeft
      exact ihRight.value_of.bind fun _ tracedRight =>
        applyBinary_traced tracedLeft tracedRight op opSpan
  | assign span target value ih =>
      rw [resolve_assign]
      exact ih.value_of.bind fun _ traced => assignTo_traced target traced value.span
  | call span callee args ih =>
      rcases call_cases callee args with ⟨ty, arg, named, rfl⟩ | plain
      · rw [resolve_cast named]
        apply (ih arg List.mem_cons_self).value_of.bind
        intro bound traced
        refine (convertTo_traced traced arg.span ty true).mono fun converted traced => ?_
        refine ⟨traced.within (List.subset_append_left _ _), ?_⟩
        rw [Syntax.Expr.stepped, named]
        exact traced.var
      · rw [resolve_plain plain]
        split
        · exact .reported (List.cons_ne_nil _ _)
        · refine ((resolveArgs_traced ih).bind fun bound traced =>
            applyOverloads_traced (traced_of_args traced) _ callee _ span).mono ?_
          intro bound traced
          refine .of_assigned traced.assigned fun v same => ?_
          obtain ⟨n, listed, -⟩ := traced.var v same
          cases listed
  | paren span inner ih =>
      rw [resolve]
      exact ih

theorem resolveValue_traced (e : Syntax.Expr) :
    (resolveValue scope e).Gives (Expr.Traced scope e.targets e.stepped) :=
  (resolve_traced e).value_of

theorem resolveTo_traced (e : Syntax.Expr) (ty : Ty) :
    (resolveTo scope e ty).Gives (Expr.Traced scope e.targets e.stepped) :=
  (resolveValue_traced e).bind fun _ traced => convertTo_traced traced e.span ty false

end

/-! ## Statements -/

/-- Whether a variable can be assigned to, and is declared here or found under one of some names. -/
def Reach (scope : Scope) (declared : List Variable) (names : List String) (u : Variable) : Prop :=
  u.mutable = true ∧ (u ∈ declared ∨ ∃ n ∈ names, scope.find? n = some u)

variable {scope : Scope} {declared declared' : List Variable} {names names' : List String}

theorem Target.reach {u : Variable} (target : Target scope names u) : Reach scope declared names u :=
  ⟨target.1, .inr target.2⟩

theorem Reach.mono {u : Variable} (reach : Reach scope declared names u)
    (subDeclared : declared ⊆ declared') (sub : names ⊆ names') :
    Reach scope declared' names' u := by
  obtain ⟨mutable, inside | ⟨n, listed, found⟩⟩ := reach
  · exact ⟨mutable, .inl (subDeclared inside)⟩
  · exact ⟨mutable, .inr ⟨n, sub listed, found⟩⟩

/-- What is found after a declaration is the new variable, or was there before under another name. -/
theorem Binder.find?_declare {b : Binder} {name : Syntax.Name} {mutable : Bool} {ty : Ty}
    (clean : (b.declare name mutable ty).2.problems = []) {n : String} {u : Variable}
    (found : (b.declare name mutable ty).2.scope.find? n = some u) :
    u = (b.declare name mutable ty).1 ∨ n ∉ name.spelling ∧ b.scope.find? n = some u := by
  cases here : name.isMissing with
  | true =>
      have spelling : name.spelling = [] := by simp [Syntax.Name.spelling, here]
      refine .inr ⟨by simp [spelling], ?_⟩
      rw [Binder.declare_missing here] at found
      exact found
  | false =>
      have spelling : name.spelling = [name.text] := by simp [Syntax.Name.spelling, here]
      have named : (b.declare name mutable ty).1.name = name.text := by rw [Binder.declare_variable]
      obtain ⟨scope, -, new⟩ := Binder.declare_clean here clean
      rw [scope, Scope.find?_extend (named ▸ new), named] at found
      split at found
      · exact .inl (Option.some.inj found).symm
      · rename_i other
        exact .inr ⟨by simpa [spelling] using Ne.symm other, found⟩

/-- What is found after a statement was left by it, or was there before under another name. -/
theorem find?_bindStmt {s : Syntax.Stmt} {b : Binder} (clean : (bindStmt s b).2.problems = [])
    {n : String} {u : Variable} (found : (bindStmt s b).2.scope.find? n = some u) :
    u ∈ (bindStmt s b).1.leaves ∨ n ∉ s.introduces ∧ b.scope.find? n = some u := by
  cases s with
  | var span name mutable ty init =>
      rw [bindStmt_var] at clean found ⊢
      rcases Binder.find?_declare clean found with rfl | ⟨other, before⟩
      · exact .inl List.mem_cons_self
      · rw [firstValue_scope] at before
        exact .inr ⟨other, before⟩
  | _ =>
      rw [bindStmt_same (by simp)] at found
      exact .inr ⟨List.not_mem_nil, found⟩

theorem bindStmts_traced {body : List Syntax.Stmt}
    (each : ∀ s ∈ body, ∀ b : Binder, (bindStmt s b).2.problems = [] →
      ∀ u ∈ (bindStmt s b).1.assigned, Reach b.scope (bindStmt s b).1.declared s.targets u)
    {b : Binder} (clean : (bindStmts body b).2.problems = []) :
    ∀ u ∈ Stmt.assignedIn (bindStmts body b).1,
      Reach b.scope (Stmt.declaredIn (bindStmts body b).1) (Syntax.Stmt.targetsIn body) u := by
  induction body generalizing b with
  | nil =>
      rw [bindStmts_nil]
      exact List.forall_mem_nil _
  | cons s ss ih =>
      rw [List.forall_mem_cons] at each
      rw [bindStmts_cons] at clean ⊢
      have cleanFirst := (grows_all ss (bindStmt s b).2).clean clean
      refine List.forall_mem_append.2 ⟨fun u member => ?_, fun u member => ?_⟩
      · exact (each.1 b cleanFirst u member).mono (List.subset_append_left _ _)
          (List.subset_append_left _ _)
      · obtain ⟨mutable, inside | ⟨n, listed, found⟩⟩ := ih each.2 clean u member
        · exact ⟨mutable, .inl (List.mem_append.2 (.inr inside))⟩
        · rcases find?_bindStmt cleanFirst found with left | ⟨other, before⟩
          · exact ⟨mutable, .inl (List.mem_append.2 (.inl ((Stmt.leaves_sublist _).subset left)))⟩
          · refine ⟨mutable, .inr ⟨n, List.mem_append.2 (.inr ?_), before⟩⟩
            exact List.mem_filter.2 ⟨listed, decide_eq_true other⟩

theorem bindBlock_traced {body : Syntax.Block}
    (each : ∀ s ∈ body.statements, ∀ b : Binder, (bindStmt s b).2.problems = [] →
      ∀ u ∈ (bindStmt s b).1.assigned, Reach b.scope (bindStmt s b).1.declared s.targets u)
    {b : Binder} (clean : (bindBlock body b).2.problems = []) :
    ∀ u ∈ (bindBlock body b).1.assigned,
      Reach b.scope (bindBlock body b).1.declared body.targets u := by
  rw [bindBlock_eq] at clean ⊢
  have targets : body.targets = Syntax.Stmt.targetsIn body.statements := by cases body; rfl
  rw [targets]
  exact bindStmts_traced each (b := b.enter) clean

/-- What a checked operand assigns to. -/
theorem Binder.check_traced {b : Binder} {e : Syntax.Expr} {ty : Ty}
    (clean : (b.check (resolveTo · e ty)).2.problems = []) :
    ∀ u ∈ (b.check (resolveTo · e ty)).1.assigned, Target b.scope e.targets u := by
  rw [Binder.check_value]
  exact ((resolveTo_traced e ty).value (Binder.check_clean clean).2).assigned

/-- A bound statement assigns to what it declares, or to its targets, if there is no problem. -/
theorem bindStmt_traced (s : Syntax.Stmt) (b : Binder) (clean : (bindStmt s b).2.problems = []) :
    ∀ u ∈ (bindStmt s b).1.assigned, Reach b.scope (bindStmt s b).1.declared s.targets u := by
  induction s using Syntax.Stmt.induction generalizing b with
  | block body ih =>
      rw [bindStmt] at clean ⊢
      exact bindBlock_traced ih clean
  | var span name mutable ty init =>
      rw [bindStmt_var] at clean ⊢
      dsimp only at clean ⊢
      obtain ⟨cleanInit, -, cleanConversion⟩ :=
        firstValue_clean ((Binder.grows_declare _ _ _ _).clean clean)
      have traced := (resolveValue_traced init).value cleanInit
      have converted := (convertTo_traced traced init.span _ false).value cleanConversion
      exact fun u member => (converted.assigned u member).reach
  | ifThen span test yes ih =>
      rw [bindStmt_ifThen] at clean ⊢
      dsimp only at clean ⊢
      have cleanTest := (grows_block yes _).clean clean
      refine List.forall_mem_append.2 ⟨fun u member => ?_, fun u member => ?_⟩
      · exact (Binder.check_traced cleanTest u member).reach.mono (List.Subset.refl _)
          (List.subset_append_left _ _)
      · exact (bindBlock_traced ih clean u member).mono (List.Subset.refl _)
          (List.subset_append_right _ _)
  | ifElse span test yes no ihYes ihNo =>
      rw [bindStmt_ifElse] at clean ⊢
      dsimp only at clean ⊢
      have cleanYes := (grows_block no _).clean clean
      have cleanTest := (grows_block yes _).clean cleanYes
      refine List.forall_mem_append.2 ⟨List.forall_mem_append.2 ⟨?_, ?_⟩, ?_⟩
      · intro u member
        refine (Binder.check_traced cleanTest u member).reach.mono (List.Subset.refl _) ?_
        exact List.Subset.trans (List.subset_append_left _ _) (List.subset_append_left _ _)
      · intro u member
        refine (bindBlock_traced ihYes cleanYes u member).mono (List.subset_append_left _ _) ?_
        exact List.Subset.trans (List.subset_append_right _ _) (List.subset_append_left _ _)
      · intro u member
        have reach := bindBlock_traced ihNo clean u member
        rw [bindBlock_same] at reach
        exact reach.mono (List.subset_append_right _ _) (List.subset_append_right _ _)
  | whileLoop span test body ih =>
      cases test with
      | none =>
          rw [bindStmt_whileLoop_none] at clean ⊢
          exact bindBlock_traced ih clean
      | some test =>
          rw [bindStmt_whileLoop_some] at clean ⊢
          dsimp only at clean ⊢
          have cleanTest := (grows_block body _).clean clean
          refine List.forall_mem_append.2 ⟨fun u member => ?_, fun u member => ?_⟩
          · exact (Binder.check_traced cleanTest u member).reach.mono (List.Subset.refl _)
              (List.subset_append_left _ _)
          · exact (bindBlock_traced ih clean u member).mono (List.Subset.refl _)
              (List.subset_append_right _ _)
  | doWhile span body test ih =>
      rw [bindStmt_doWhile] at clean ⊢
      dsimp only at clean ⊢
      have cleanBody := (Binder.check_clean clean).1
      refine List.forall_mem_append.2 ⟨fun u member => ?_, fun u member => ?_⟩
      · exact (bindBlock_traced ih cleanBody u member).mono (List.Subset.refl _)
          (List.subset_append_left _ _)
      · have target := Binder.check_traced clean u member
        rw [bindBlock_same] at target
        exact target.reach.mono (List.Subset.refl _) (List.subset_append_right _ _)
  | forTo span var mutable lower upper body ih =>
      rw [bindStmt_forTo] at clean ⊢
      dsimp only at clean ⊢
      have cleanVar := (grows_block body _).clean clean
      have cleanUpper := (Binder.grows_enter _).clean ((Binder.grows_declare _ _ _ _).clean cleanVar)
      have cleanLower := (Binder.check_clean cleanUpper).1
      refine List.forall_mem_append.2 ⟨List.forall_mem_append.2 ⟨?_, ?_⟩, ?_⟩
      · intro u member
        refine (Binder.check_traced cleanLower u member).reach.mono (List.Subset.refl _) ?_
        exact List.Subset.trans (List.subset_append_left _ _) (List.subset_append_left _ _)
      · intro u member
        refine (Binder.check_traced cleanUpper u member).reach.mono (List.Subset.refl _) ?_
        exact List.Subset.trans (List.subset_append_right _ _) (List.subset_append_left _ _)
      · -- a target of the body may be the variable of the loop
        intro u member
        obtain ⟨mutable, inside | ⟨n, listed, found⟩⟩ := bindBlock_traced ih clean u member
        · exact ⟨mutable, .inl (List.mem_cons_of_mem _ inside)⟩
        · rcases Binder.find?_declare cleanVar found with rfl | ⟨other, before⟩
          · exact ⟨mutable, .inl List.mem_cons_self⟩
          · refine ⟨mutable, .inr ⟨n, List.mem_append.2 (.inr ?_), before⟩⟩
            exact List.mem_filter.2 ⟨listed, decide_eq_true other⟩
  | expr e =>
      rw [bindStmt_expr] at clean ⊢
      dsimp only at clean
      obtain ⟨-, cleanExpr⟩ := Binder.check_clean clean
      exact fun u member => (((resolve_traced e).value cleanExpr).assigned u member).reach

/-! ## Runs -/

/-- A run leaves the variables alone that it neither assigns to nor declares, however it ends. -/
theorem Stmt.interpret_frame {rounds : Nat} {s : Stmt} {id : Nat}
    (unassigned : ∀ u ∈ s.assigned, u.id ≠ id) (undeclared : ∀ u ∈ s.declared, u.id ≠ id)
    {last : Value} {w : World} {o : Outcome Value} (ended : s.interpret rounds last w = some o) :
    o.2.store.get? id = w.store.get? id := by
  refine s.interpret_keeps (P := fun t => t.get? id = w.store.get? id) ?_ ?_ last w rfl o ended
  · intro u member t t' x assigned same
    rw [Store.get?_assign? assigned, if_neg (Ne.symm (unassigned u member)), same]
  · intro u member t x same
    rw [Store.get?_upsert, if_neg (Ne.symm (undeclared u member)), same]

theorem value_of_followedBy {run : Option (Outcome Value)}
    {next : Value → World → Option (Outcome Value)} {x : Value} {w : World}
    (ended : followedBy run next = some (.ok x, w)) :
    ∃ y w₁, run = some (.ok y, w₁) ∧ next y w₁ = some (.ok x, w) := by
  match run with
  | none => cases ended
  | some (.error f, w₁) => cases ended
  | some (.ok y, w₁) => exact ⟨y, w₁, rfl, ended⟩

theorem Expr.declareAs_ok {e : Expr} {v : Variable} {x : Value} {w w' : World}
    (ended : e.declareAs v w = (.ok x, w')) :
    ∃ w₁, e.eval w = (.ok x, w₁) ∧ w' = { w₁ with store := w₁.store.upsert v x } := by
  unfold Expr.declareAs at ended
  match e.eval w, ended with
  | (.error f, w₁), ended => cases ended
  | (.ok y, w₁), ended =>
      cases ended
      exact ⟨w₁, rfl, rfl⟩

theorem Stmt.declaredIn_append (xs ys : List Stmt) :
    Stmt.declaredIn (xs ++ ys) = Stmt.declaredIn xs ++ Stmt.declaredIn ys := by
  induction xs with
  | nil => rfl
  | cons s ss ih => rw [List.cons_append, Stmt.declaredIn, ih, Stmt.declaredIn, List.append_assoc]

/-- A variable that statements leave is declared by one of them. -/
theorem exists_of_mem_leavesOf {body : List Stmt} {v : Variable} (member : v ∈ leavesOf body) :
    ∃ before init after, body = before ++ .declare v init :: after := by
  obtain ⟨s, inside, left⟩ := List.mem_flatMap.1 member
  cases s with
  | declare u init =>
      rw [List.mem_singleton.1 left]
      obtain ⟨before, after, same⟩ := List.append_of_mem inside
      exact ⟨before, init, after, same⟩
  | _ => cases left

end Bound

open ScriptLang.Bound (Stmt)

/-- Whether a submission that runs in a world gives a variable a value where it declares it, outside
of all blocks. -/
def Attempt.Declares (a : Attempt) (w : World) (v : Variable) (x : Value) : Prop :=
  ∃ rounds before init after last w₁ w₂,
    a.submission.statement = .block (before ++ .declare v init :: after) ∧
      Stmt.interpretAll rounds before .void (w.below a.nextId) = some (.ok last, w₁) ∧
      init.eval w₁ = (.ok x, w₂)

theorem Store.get?_below {c id : Nat} (low : id < c) (s : Store) :
    (s.below c).get? id = s.get? id := by
  rw [below, s.get?_retain fun id => decide (id < c), if_pos (decide_eq_true low)]

theorem Scope.name_of_find? {s : Scope} {name : String} {v : Variable}
    (found : s.find? name = some v) : v.name = name := by
  obtain ⟨frame, -, here⟩ := List.exists_of_findSome?_eq_some found
  have same := List.find?_some here
  exact of_decide_eq_true same

namespace Session

variable {s : Session}

theorem Checked.body_eq {tree : Syntax.Tree} {body : List Stmt}
    (checked : s.Checked (s.attempt tree) body) :
    body = Attempt.boundBody s.chain s.nextId tree :=
  Stmt.block.inj (checked.statement.symm.trans rfl)

theorem Checked.program {tree : Syntax.Tree} {body : List Stmt}
    (checked : s.Checked (s.attempt tree) body) (clean : (s.attempt tree).diagnostics = [])
    (numbered : s.Numbered) : (s.attempt tree).Program body := by
  rw [checked.body_eq]
  exact Attempt.program_bind clean numbered.below

/-- A submission without diagnostics assigns to variables of its own, and to those that its text
names. -/
theorem Checked.assigned {text : String} {body : List Stmt}
    (checked : s.Checked (s.attempt (.ofText text)) body)
    (clean : (s.attempt (.ofText text)).diagnostics = []) {u : Variable}
    (member : u ∈ Stmt.assignedIn body) :
    u.mutable = true ∧ (u ∈ Stmt.declaredIn body ∨ u ∈ chainVariables s.chain ∧
      u.name ∈ (Syntax.Tree.ofText text).targets ∧
      (Bound.scopeAfter s.chain).find? u.name = some u) := by
  rw [checked.body_eq] at member ⊢
  have traced := Bound.bindStmts_traced (fun s _ => Bound.bindStmt_traced s)
    (Attempt.problems_of_clean clean)
  obtain ⟨mutable, inside | ⟨n, listed, found⟩⟩ := traced u member
  · exact ⟨mutable, .inl inside⟩
  · have found : (Bound.scopeAfter s.chain).find? n = some u := found
    have named := Scope.name_of_find? found
    rw [named]
    exact ⟨mutable, .inr ⟨mem_vars_scopeAfter.1 (Scope.mem_vars_of_find? found), listed, found⟩⟩

/-- The variables that a submission has to do with are told apart by their numbers. -/
theorem Checked.eq_of_id {a : Attempt} {body : List Stmt} (checked : s.Checked a body)
    (numbered : s.Numbered) {u v : Variable}
    (first : u ∈ chainVariables s.chain ++ Stmt.declaredIn body)
    (second : v ∈ chainVariables s.chain ++ Stmt.declaredIn body) (same : u.id = v.id) : u = v :=
  List.inj_on_of_nodup_map (numbered.nodup checked.ids) first second same

/-- A program that stops, with a value or not, changes a variable of an earlier submission only if it
can be assigned to and the text names it. -/
theorem Sound.changed (sound : s.Sound) {text : String}
    (clean : (s.attempt (.ofText text)).diagnostics = []) {fuel : Nat} {o : Outcome Value}
    (ended : runProgram fuel (s.attempt (.ofText text)).lowered.program s.world = some o)
    {v : Variable} (member : v ∈ chainVariables s.chain)
    (changed : o.2.store.get? v.id ≠ s.world.store.get? v.id) :
    v.mutable = true ∧ v.name ∈ (Syntax.Tree.ofText text).targets ∧
      (Bound.scopeAfter s.chain).find? v.name = some v := by
  obtain ⟨body, checked⟩ := sound.checked_ofText clean
  have low := sound.below v member
  have undeclared : ∀ u ∈ Stmt.declaredIn body, u.id ≠ v.id := by
    intro u declared same
    have high := (checked.declared_low declared).1
    omega
  by_contra other
  have unassigned : ∀ u ∈ Stmt.assignedIn body, u.id ≠ v.id := by
    intro u assigned same
    obtain ⟨mutable, own | ⟨old, listed, found⟩⟩ := checked.assigned clean assigned
    · exact undeclared u own same
    · cases checked.eq_of_id sound.numbered (List.mem_append.2 (.inl old))
        (List.mem_append.2 (.inl member)) same
      exact other ⟨mutable, listed, found⟩
  refine changed ?_
  have program := checked.program clean sound.numbered
  obtain ⟨rounds, ran⟩ := program.ends_iff.2 ⟨fuel, o, ended, rfl⟩
  have kept := Stmt.interpret_frame (s := .block body) unassigned undeclared ran
  have inside : v.id < (s.attempt (.ofText text)).nextId := Nat.lt_of_lt_of_le low checked.le
  calc o.2.store.get? v.id = (o.2.store.below (s.attempt (.ofText text)).nextId).get? v.id :=
        (Store.get?_below inside _).symm
    _ = (s.world.store.below (s.attempt (.ofText text)).nextId).get? v.id := kept
    _ = s.world.store.get? v.id := Store.get?_below inside _

/-- A program that gives a value leaves the variables that it declares outside of all blocks, and
that cannot be assigned to, with the values that it declares them with. -/
theorem Sound.declares (sound : s.Sound) {text : String}
    (clean : (s.attempt (.ofText text)).diagnostics = []) {fuel : Nat} {x : Value} {w : World}
    (ended : runProgram fuel (s.attempt (.ofText text)).lowered.program s.world = some (.ok x, w))
    {v : Variable} (member : v ∈ (s.attempt (.ofText text)).submission.vars)
    (fixed : v.mutable = false) :
    ∃ y, (s.attempt (.ofText text)).Declares s.world v y ∧ w.store.get? v.id = some y := by
  obtain ⟨body, checked⟩ := sound.checked_ofText clean
  obtain ⟨rounds, ran⟩ := (checked.program clean sound.numbered).ends_iff.2 ⟨fuel, _, ended, rfl⟩
  rw [checked.vars] at member
  obtain ⟨before, init, after, rfl⟩ := Bound.exists_of_mem_leavesOf member
  have declared : v ∈ Stmt.declaredIn (before ++ .declare v init :: after) :=
    (Bound.leavesOf_sublist _).subset member
  -- the program ran up to the declaration, through it, and on to its end
  rw [Stmt.interpretAll_append] at ran
  obtain ⟨last, w₁, begun, rest⟩ := Bound.value_of_followedBy ran
  obtain ⟨y, w₂, here, later⟩ := Bound.value_of_followedBy rest
  obtain ⟨w₃, value, rfl⟩ := Bound.Expr.declareAs_ok (Option.some.inj here)
  refine ⟨y, ⟨rounds, before, init, after, last, w₁, w₃, checked.statement, begun, value⟩, ?_⟩
  have unassigned : ∀ u ∈ Stmt.assignedIn after, u.id ≠ v.id := by
    intro u assigned same
    have listed : u ∈ Stmt.assignedIn (before ++ .declare v init :: after) := by
      obtain ⟨stmt, inside, assigned⟩ := Stmt.mem_assignedIn.1 assigned
      exact Stmt.mem_assignedIn.2 ⟨stmt, by simp [inside], assigned⟩
    obtain ⟨mutable, which⟩ := checked.assigned clean listed
    have known : u ∈ chainVariables s.chain ++
        Stmt.declaredIn (before ++ .declare v init :: after) := by
      rcases which with own | ⟨old, -⟩
      · exact List.mem_append.2 (.inr own)
      · exact List.mem_append.2 (.inl old)
    cases checked.eq_of_id sound.numbered known (List.mem_append.2 (.inr declared)) same
    rw [fixed] at mutable
    cases mutable
  have undeclared : ∀ u ∈ Stmt.declaredIn after, u.id ≠ v.id := by
    have ids : ((Stmt.declaredIn (before ++ .declare v init :: after)).map (·.id)).Nodup := by
      rw [checked.ids]
      exact List.nodup_range'
    rw [Stmt.declaredIn_append, List.map_append, List.nodup_append] at ids
    intro u inside same
    have listed : u.id ∈ (Stmt.declaredIn after).map (·.id) := List.mem_map_of_mem inside
    rw [same] at listed
    exact (List.nodup_cons.1 ids.2.1).1 listed
  have kept := Stmt.interpret_frame (s := .block after) unassigned undeclared later
  have inside := (checked.declared_low declared).2
  calc w.store.get? v.id = (w.store.below (s.attempt (.ofText text)).nextId).get? v.id :=
        (Store.get?_below inside _).symm
    _ = (w₃.store.upsert v y).get? v.id := kept
    _ = some y := by rw [Store.get?_upsert, if_pos rfl]

/-! ## Sessions -/

/-- What a session can go on to by submitting texts, with any streams in between, until it is
reset. -/
inductive Later (s : Session) : Session → Prop where
  | refl : Later s s
  | streams {t : Session} (h : Later s t) (w : World) (same : w.store = t.world.store) :
      Later s { t with world := w }
  | submit {t t' : Session} (h : Later s t) {fuel : Nat} {text : String} {reply : Reply}
      (submitted : t.submit fuel (.ofText text) = some (reply, t')) : Later s t'

theorem Later.reachable {t : Session} (later : s.Later t) (reachable : s.Reachable) :
    t.Reachable := by
  induction later with
  | refl => exact reachable
  | streams _ w same ih => exact .streams ih w same
  | submit _ submitted ih => exact .submit ih submitted

theorem abandon_chain (s : Session) (n : Nat) : (s.abandon n).chain = s.chain := by
  unfold abandon
  split <;> rfl

/-- A variable of the chain stays in it.  It has the value from before a submission, or the one that
the program of the submission left. -/
theorem chain_submit {s' : Session} {fuel : Nat} {tree : Syntax.Tree} {reply : Reply}
    (submitted : s.submit fuel tree = some (reply, s')) {v : Variable}
    (member : v ∈ chainVariables s.chain) :
    v ∈ chainVariables s'.chain ∧ (s'.world.store.get? v.id = s.world.store.get? v.id ∨
      (s.attempt tree).diagnostics = [] ∧
        ∃ o, runProgram fuel (s.attempt tree).lowered.program s.world = some o ∧
          s'.world.store.get? v.id = o.2.store.get? v.id) := by
  have joined : v ∈ chainVariables (s.attempt tree).chain := by
    rw [Attempt.chain, chainVariables_cons]
    exact List.mem_append.2 (.inl member)
  obtain ⟨-, -, rfl⟩ | ⟨w, clean, ⟨f, ended, -, rfl⟩ | ⟨x, ended, -, rfl⟩⟩ := submit_cases submitted
  · rw [abandon_chain, abandon_world]
    exact ⟨member, .inl rfl⟩
  · rw [abandon_chain, abandon_world]
    exact ⟨member, .inr ⟨clean, _, ended, get?_prune _ joined⟩⟩
  · exact ⟨joined, .inr ⟨clean, _, ended, get?_prune _ joined⟩⟩

/-- A submission changes a variable of the chain only if it can be assigned to and the text names
it. -/
theorem Sound.submit_changed (sound : s.Sound) {s' : Session} {fuel : Nat} {text : String}
    {reply : Reply} (submitted : s.submit fuel (.ofText text) = some (reply, s')) {v : Variable}
    (member : v ∈ chainVariables s.chain)
    (changed : s'.world.store.get? v.id ≠ s.world.store.get? v.id) :
    v.mutable = true ∧ v.name ∈ (Syntax.Tree.ofText text).targets ∧
      (Bound.scopeAfter s.chain).find? v.name = some v := by
  obtain ⟨-, same | ⟨clean, o, ended, stored⟩⟩ := chain_submit submitted member
  · exact absurd same changed
  · exact sound.changed clean ended member (stored ▸ changed)

/-- A variable of the chain that cannot be assigned to keeps its value. -/
theorem Later.keeps {t : Session} (later : s.Later t) (reachable : s.Reachable) {v : Variable}
    (member : v ∈ chainVariables s.chain) (fixed : v.mutable = false) :
    v ∈ chainVariables t.chain ∧ t.world.store.get? v.id = s.world.store.get? v.id := by
  induction later with
  | refl => exact ⟨member, rfl⟩
  | streams _ w same ih => exact ⟨ih.1, by rw [same]; exact ih.2⟩
  | @submit t t' before fuel text reply submitted ih =>
      refine ⟨(chain_submit submitted ih.1).1, ?_⟩
      by_contra changed
      rw [← ih.2] at changed
      have sound := (before.reachable reachable).sound
      have mutable := (sound.submit_changed submitted ih.1 changed).1
      rw [fixed] at mutable
      cases mutable

/-- A submission, however it ends, changes a variable of an earlier one only if that is `mut` and the
text has an assignment to its name, or steps it, where the name means this variable.  So a variable
without `mut` keeps the value that it was declared with. -/
theorem submit_frames {s s' : Session} (reachable : s.Reachable) {fuel : Nat} {text : String}
    {reply : Reply} (submitted : s.submit fuel (.ofText text) = some (reply, s')) :
    (∀ v ∈ chainVariables s.chain, s'.world.store.get? v.id ≠ s.world.store.get? v.id →
        v.mutable = true ∧ v.name ∈ (Syntax.Tree.ofText text).targets ∧
          (Bound.scopeAfter s.chain).find? v.name = some v) ∧
      ∀ v ∈ chainVariables s'.chain, v ∉ chainVariables s.chain → v.mutable = false →
        ∃ x, (s.attempt (.ofText text)).Declares s.world v x ∧
          ∀ t, s'.Later t → t.world.store.get? v.id = some x := by
  have sound := reachable.sound
  refine ⟨fun v => sound.submit_changed submitted, fun v member new fixed => ?_⟩
  have after : s'.Reachable := .submit reachable submitted
  obtain ⟨-, -, rfl⟩ | ⟨w, clean, ⟨f, ended, -, rfl⟩ | ⟨x, ended, -, rfl⟩⟩ := submit_cases submitted
  · rw [abandon_chain] at member
    exact absurd member new
  · rw [abandon_chain] at member
    exact absurd member new
  · have joined : v ∈ chainVariables (s.attempt (.ofText text)).chain := member
    rw [Attempt.chain, chainVariables_cons] at joined
    obtain ⟨y, declares, stored⟩ :=
      sound.declares clean ended ((List.mem_append.1 joined).resolve_left new) fixed
    refine ⟨y, declares, fun t later => ?_⟩
    rw [(later.keeps after member fixed).2]
    exact (get?_prune _ member).trans stored

/-- A text that changes the variable of the sample, and declares one without `mut`, which it hides in
a block behind one with `mut`. -/
def shadowing : String := "var y = x; ++x; \x7b var mut y = 5; y += x \x7d x = x + y"

theorem shadowing_submit_frames : ∃ x s',
    sample.submit 100 (.ofText shadowing) = some (.value x, s') ∧
    (∀ v ∈ chainVariables sample.chain,
      s'.world.store.get? v.id ≠ sample.world.store.get? v.id →
        v.mutable = true ∧ v.name ∈ (Syntax.Tree.ofText shadowing).targets ∧
          (Bound.scopeAfter sample.chain).find? v.name = some v) ∧
    ∀ v ∈ chainVariables s'.chain, v ∉ chainVariables sample.chain → v.mutable = false →
      ∃ y, (sample.attempt (.ofText shadowing)).Declares sample.world v y ∧
        ∀ t, s'.Later t → t.world.store.get? v.id = some y := by
  have stops : answers (fun _ _ => true) (sample.submit 100 (.ofText shadowing)) = true := by
    decide +kernel
  obtain ⟨x, s', submitted, -⟩ := exists_value stops
  exact ⟨x, s', submitted, submit_frames reachable_sample submitted⟩

end Session

end ScriptLang
