/-
# ScriptLang.Proofs.Checking -- binding accepts exactly the well typed programs

A statement in which no name is missing binds without a problem exactly if the
rules let it stand in the variables of its scope; the scope after it then has the
variables that the rules give, and what it is bound to is `Proper`
(`bindStmt_sound`, `bindStmt_complete`).

For a program this needs that no variable of the programs before it has an unknown
type.  A variable whose first value is missing has one without a report of its own,
and whatever uses it is silent too; where no name is missing in any of the programs
this cannot happen (`WholeChain.known`).
-/
import ScriptLang.Proofs.Judging
import ScriptLang.Proofs.Sessions

namespace ScriptLang

set_option autoImplicit false

open Rules (Checks ChecksAll Declares Fits)

/-! ## Scopes -/

namespace Scope

theorem overloads_push (s : Scope) (name : String) : s.push.overloads name = s.overloads name := by
  simp [overloads, push, frames, Frame.empty, Frame.overloads]

theorem context_extend (s : Scope) (v : Variable) :
    (s.extend [v]).context = s.context.declare v.entry := by
  simp [context, extend, frames, Rules.Context.declare]

variable {s : Scope}

theorem Ready.push (ready : s.Ready) : s.push.Ready where
  vars := by rw [vars_push]; exact ready.vars
  overloads := fun name => (overloads_push s name).trans (ready.overloads name)

theorem Ready.extend (ready : s.Ready) {v : Variable} (known : v.ty ≠ .unknown) :
    (s.extend [v]).Ready where
  vars := by
    intro u member
    rcases mem_vars_extend.1 member with old | new
    · exact ready.vars u old
    · rw [List.mem_singleton.1 new]
      exact known
  overloads := ready.overloads

end Scope

namespace Bound

/-! ## Proper statements -/

mutual

/-- Whether a statement has no jumps, no variable in it has an unknown type, tests are of type bool
and bounds of type int, and all else is proper. -/
def Stmt.Proper : Stmt → Prop
  | .block body => Stmt.ProperAll body
  | .declare v init => v.ty ≠ .unknown ∧ init.Gives v.ty
  | .ifThen test yes => test.Gives .bool ∧ yes.Proper
  | .ifElse test yes no => test.Gives .bool ∧ yes.Proper ∧ no.Proper
  | .whileLoop test body => test.Gives .bool ∧ body.Proper
  | .doWhile body test => body.Proper ∧ test.Gives .bool
  | .forTo v lower upper body => v.ty = .int ∧ lower.Gives .int ∧ upper.Gives .int ∧ body.Proper
  | .expr e => e.Proper
  | .goto _ | .branch .. | .label _ => False

def Stmt.ProperAll : List Stmt → Prop
  | [] => True
  | s :: ss => s.Proper ∧ Stmt.ProperAll ss

end

/-! ## Declarations -/

namespace Binder

theorem check_clean_iff {α : Type} {b : Binder} {f : Scope → Checked α} :
    (b.check f).2.problems = [] ↔ b.problems = [] ∧ (f b.scope).problems = [] :=
  List.append_eq_nil_iff

theorem check_eq {α : Type} {b : Binder} {f : Scope → Checked α} {a : α}
    (clean : f b.scope = ⟨a, []⟩) : b.check f = (a, b) := by
  unfold check
  simp [clean]

/-- A declaration passes exactly if the name is free, and adds what the rules add. -/
theorem declare_clean_iff {b : Binder} (ready : b.scope.Ready) {name : Syntax.Name} {mutable : Bool}
    {ty : Ty} (here : name.isMissing = false) :
    (b.declare name mutable ty).2.problems = [] ↔
      b.problems = [] ∧ b.scope.context.Free name.text := by
  rw [Scope.free_iff ready]
  constructor
  · intro clean
    obtain ⟨-, function, block⟩ := declare_clean here clean
    exact ⟨(grows_declare _ _ _ _).clean clean, function, block⟩
  · rintro ⟨before, function, block⟩
    rw [declare_free here function block]
    exact before

theorem declare_context {b : Binder} {name : Syntax.Name} {mutable : Bool} {ty : Ty}
    (here : name.isMissing = false) (clean : (b.declare name mutable ty).2.problems = []) :
    (b.declare name mutable ty).2.scope.context =
      b.scope.context.declare ⟨name.text, ty, mutable⟩ := by
  rw [(declare_clean here clean).1, Scope.context_extend, declare_variable]
  rfl

theorem declare_ready {b : Binder} (ready : b.scope.Ready) {name : Syntax.Name} {mutable : Bool}
    {ty : Ty} (known : ty ≠ .unknown) (here : name.isMissing = false)
    (clean : (b.declare name mutable ty).2.problems = []) :
    (b.declare name mutable ty).2.scope.Ready := by
  rw [(declare_clean here clean).1]
  refine ready.extend ?_
  rw [declare_ty]
  exact known

end Binder

theorem declaredType_some {b : Binder} {written : Syntax.Name} {t : Ty} (init : Expr)
    (named : Ty.ofName? written.text = some t) : declaredType b (some written) init = (t, b) := by
  unfold declaredType Binder.resolveType
  simp only [named]

theorem firstValue_sound {ty : Option Syntax.Name} {init : Syntax.Expr} {b : Binder}
    (ready : b.scope.Ready) (whole : init.Whole) (clean : (firstValue ty init b).2.problems = []) :
    Declares b.scope.context ty init (firstValue ty init b).1.1 ∧
      (firstValue ty init b).1.1 ≠ .unknown ∧
      (firstValue ty init b).1.2.Gives (firstValue ty init b).1.1 := by
  obtain ⟨cleanInit, cleanTy, converted⟩ := firstValue_clean clean
  obtain ⟨judged, notVoid⟩ := resolveValue_judged ready whole cleanInit
  have known := declaredType_known judged.proper.known cleanTy
  have gives := convertTo_gives judged.proper known converted
  refine ⟨?_, known, gives⟩
  have widens := (convertTo_clean_iff_widens judged.proper known).1 converted
  cases ty with
  | none => exact .inferred judged.typed notVoid
  | some written =>
      cases named : Ty.ofName? written.text with
      | none => simp [declaredType, Binder.resolveType, named, Binder.report] at cleanTy
      | some t =>
          rw [declaredType_some _ named] at widens
          unfold firstValue
          dsimp only
          rw [declaredType_some _ named]
          exact .written (names_iff.2 named) ⟨_, judged.typed, notVoid, widens⟩

theorem firstValue_complete {ty : Option Syntax.Name} {init : Syntax.Expr} {b : Binder}
    (ready : b.scope.Ready) (whole : init.Whole) (before : b.problems = []) {t : Ty}
    (declares : Declares b.scope.context ty init t) :
    (firstValue ty init b).2.problems = [] ∧ (firstValue ty init b).1.1 = t := by
  cases declares with
  | inferred typed notVoid =>
      obtain ⟨clean, rfl⟩ := resolve_complete ready init whole typed
      have first : b.check (resolveValue · init) = ((resolve b.scope init).value, b) :=
        Binder.check_eq (resolveValue_eq clean notVoid)
      unfold firstValue
      simp only [first, declaredType]
      rw [Binder.check_eq convertTo_self]
      exact ⟨before, trivial⟩
  | written named fits =>
      obtain ⟨s, typed, notVoid, widens⟩ := fits
      obtain ⟨clean, rfl⟩ := resolve_complete ready init whole typed
      have judged := resolve_judged ready init whole clean
      have first : b.check (resolveValue · init) = ((resolve b.scope init).value, b) :=
        Binder.check_eq (resolveValue_eq clean notVoid)
      have named := names_iff.1 named
      have converted : (convertTo (resolve b.scope init).value init.span t false).problems = [] :=
        (convertTo_clean_iff_widens judged.proper (ofName?_known named)).2 widens
      unfold firstValue
      simp only [first]
      rw [declaredType_some _ named]
      exact ⟨Binder.check_clean_iff.2 ⟨before, converted⟩, rfl⟩

/-! ## Statements -/

/-- What binding makes of a statement that the rules let stand. -/
structure Sound (b : Binder) (s : Syntax.Stmt) (bound : Stmt) (b' : Binder) : Prop where
  checks : Checks b.scope.context s b'.scope.context
  proper : bound.Proper
  ready : b'.scope.Ready

theorem bindStmts_sound {body : List Syntax.Stmt}
    (each : ∀ s ∈ body, ∀ b : Binder, b.scope.Ready → s.Whole → (bindStmt s b).2.problems = [] →
      Sound b s (bindStmt s b).1 (bindStmt s b).2)
    (b : Binder) (ready : b.scope.Ready) (whole : Syntax.Stmt.WholeAll body)
    (clean : (bindStmts body b).2.problems = []) :
    ChecksAll b.scope.context body (bindStmts body b).2.scope.context ∧
      Stmt.ProperAll (bindStmts body b).1 ∧ (bindStmts body b).2.scope.Ready := by
  induction body generalizing b with
  | nil =>
      rw [bindStmts_nil]
      exact ⟨.nil _, trivial, ready⟩
  | cons s ss ih =>
      rw [bindStmts_cons] at clean ⊢
      rw [List.forall_mem_cons] at each
      have first := each.1 b ready whole.1 ((grows_all ss _).clean clean)
      obtain ⟨checks, proper, readyAfter⟩ := ih each.2 _ first.ready whole.2 clean
      exact ⟨.cons first.checks checks, ⟨first.proper, proper⟩, readyAfter⟩

theorem Block.wholeAll {body : Syntax.Block} (whole : body.Whole) :
    Syntax.Stmt.WholeAll body.statements := by
  cases body
  exact whole

/-- A block leaves the scope as it was. -/
theorem bindBlock_sound {body : Syntax.Block}
    (each : ∀ s ∈ body.statements, ∀ b : Binder, b.scope.Ready → s.Whole →
      (bindStmt s b).2.problems = [] → Sound b s (bindStmt s b).1 (bindStmt s b).2)
    {b : Binder} {scope : Scope} (ready : scope.Ready) (whole : body.Whole)
    (clean : (bindBlock body b).2.problems = []) (same : b.scope = scope) :
    (∃ Δ, ChecksAll ([] :: scope.context) body.statements Δ) ∧ (bindBlock body b).1.Proper ∧
      (bindBlock body b).2.scope = scope := by
  subst same
  have left := (bindBlock_wellBound (fun s _ => bindStmt_wellBound s) b whole clean).scope_eq
    (leaves_bindBlock _ _)
  rw [bindBlock_eq] at clean left ⊢
  obtain ⟨checks, proper, -⟩ :=
    bindStmts_sound each b.enter ready.push (Block.wholeAll whole) clean
  exact ⟨⟨_, checks⟩, proper, left⟩

theorem Sound.of_scope_eq {b b' : Binder} {s : Syntax.Stmt} {bound : Stmt} (ready : b.scope.Ready)
    (scope : b'.scope = b.scope) (checks : Checks b.scope.context s b.scope.context)
    (proper : bound.Proper) : Sound b s bound b' where
  checks := by rw [scope]; exact checks
  proper := proper
  ready := by rw [scope]; exact ready

/-- A test or a bound that passes fits its type and gives a value of it. -/
theorem Binder.check_sound {b : Binder} (ready : b.scope.Ready) {e : Syntax.Expr} (whole : e.Whole)
    {ty : Ty} (known : ty ≠ .unknown) (clean : (resolveTo b.scope e ty).problems = []) :
    Fits b.scope.context e ty ∧ (b.check (resolveTo · e ty)).1.Gives ty := by
  refine ⟨(resolveTo_clean_iff ready whole known).1 clean, ?_⟩
  rw [Binder.check_value]
  exact resolveTo_gives ready whole known clean

/-- A statement that binds without a problem may stand where it stands. -/
theorem bindStmt_sound (s : Syntax.Stmt) (b : Binder) (ready : b.scope.Ready) (whole : s.Whole)
    (clean : (bindStmt s b).2.problems = []) : Sound b s (bindStmt s b).1 (bindStmt s b).2 := by
  induction s using Syntax.Stmt.induction generalizing b with
  | block body ih =>
      rw [bindStmt] at clean ⊢
      obtain ⟨⟨Δ, checks⟩, proper, scope⟩ := bindBlock_sound ih ready whole clean rfl
      exact .of_scope_eq ready scope (.block checks) proper
  | var span name mutable ty init =>
      obtain ⟨named, -, wholeInit⟩ := whole
      rw [bindStmt_var] at clean ⊢
      dsimp only at clean ⊢
      obtain ⟨declares, known, gives⟩ :=
        firstValue_sound ready wholeInit ((Binder.grows_declare _ _ _ _).clean clean)
      have scope := firstValue_scope ty init b
      have readyFirst : (firstValue ty init b).2.scope.Ready := by
        rw [scope]
        exact ready
      obtain ⟨-, free⟩ := (Binder.declare_clean_iff readyFirst named).1 clean
      rw [scope] at free
      refine ⟨?_, ⟨?_, ?_⟩, Binder.declare_ready readyFirst known named clean⟩
      · rw [Binder.declare_context named clean, scope]
        exact .var declares free
      · rw [Binder.declare_ty]
        exact known
      · rw [Binder.declare_ty]
        exact gives
  | ifThen span test yes ih =>
      rw [bindStmt_ifThen] at clean ⊢
      dsimp only at clean ⊢
      obtain ⟨-, cleanTest⟩ := Binder.check_clean ((grows_block yes _).clean clean)
      obtain ⟨⟨Δ, checks⟩, proper, scope⟩ := bindBlock_sound ih ready whole.2 clean rfl
      obtain ⟨fits, gives⟩ := Binder.check_sound ready whole.1 bool_known cleanTest
      exact .of_scope_eq ready scope (.ifThen fits checks) ⟨gives, proper⟩
  | ifElse span test yes no ihYes ihNo =>
      rw [bindStmt_ifElse] at clean ⊢
      dsimp only at clean ⊢
      have cleanYes := (grows_block no _).clean clean
      obtain ⟨-, cleanTest⟩ := Binder.check_clean ((grows_block yes _).clean cleanYes)
      obtain ⟨⟨Δ, checksYes⟩, properYes, scopeYes⟩ :=
        bindBlock_sound ihYes ready whole.2.1 cleanYes rfl
      obtain ⟨⟨Δ', checksNo⟩, properNo, scope⟩ :=
        bindBlock_sound ihNo ready whole.2.2 clean scopeYes
      obtain ⟨fits, gives⟩ := Binder.check_sound ready whole.1 bool_known cleanTest
      exact .of_scope_eq ready scope (.ifElse fits checksYes checksNo) ⟨gives, properYes, properNo⟩
  | whileLoop span test body ih =>
      cases test with
      | none =>
          rw [bindStmt_whileLoop_none] at clean ⊢
          obtain ⟨⟨Δ, checks⟩, proper, scope⟩ := bindBlock_sound ih ready whole.2 clean rfl
          exact .of_scope_eq ready scope (.whileLoop (by rintro _ ⟨⟩) checks) ⟨⟨trivial, rfl⟩, proper⟩
      | some test =>
          rw [bindStmt_whileLoop_some] at clean ⊢
          dsimp only at clean ⊢
          obtain ⟨-, cleanTest⟩ := Binder.check_clean ((grows_block body _).clean clean)
          obtain ⟨⟨Δ, checks⟩, proper, scope⟩ := bindBlock_sound ih ready whole.2 clean rfl
          obtain ⟨fits, gives⟩ := Binder.check_sound ready (whole.1 test rfl) bool_known cleanTest
          have fits : ∀ e ∈ some test, Fits b.scope.context e .bool := by
            rintro e ⟨⟩
            exact fits
          exact .of_scope_eq ready scope (.whileLoop fits checks) ⟨gives, proper⟩
  | doWhile span body test ih =>
      rw [bindStmt_doWhile] at clean ⊢
      dsimp only at clean ⊢
      obtain ⟨cleanBody, cleanTest⟩ := Binder.check_clean clean
      obtain ⟨⟨Δ, checks⟩, proper, scope⟩ := bindBlock_sound ih ready whole.1 cleanBody rfl
      have readyAfter : (bindBlock body b).2.scope.Ready := by
        rw [scope]
        exact ready
      obtain ⟨fits, gives⟩ := Binder.check_sound readyAfter whole.2 bool_known cleanTest
      rw [scope] at fits
      exact .of_scope_eq ready scope (.doWhile checks fits) ⟨proper, gives⟩
  | forTo span var mutable lower upper body ih =>
      rw [bindStmt_forTo] at clean ⊢
      dsimp only at clean ⊢
      obtain ⟨named, wholeLower, wholeUpper, wholeBody⟩ := whole
      have cleanVar := (grows_block body _).clean clean
      obtain ⟨-, free⟩ := (Binder.declare_clean_iff ready.push named).1 cleanVar
      obtain ⟨cleanLower, cleanUpper⟩ := bounds_clean cleanVar
      -- the loop variable has a block of its own around the body
      have readyBody := Binder.declare_ready ready.push int_known named cleanVar
      obtain ⟨⟨Δ, checks⟩, proper, scope⟩ := bindBlock_sound ih readyBody wholeBody clean rfl
      rw [Binder.declare_context named cleanVar] at checks
      obtain ⟨fitsLower, first⟩ := Binder.check_sound ready wholeLower int_known cleanLower
      obtain ⟨fitsUpper, second⟩ := Binder.check_sound (b := (b.check (resolveTo · lower .int)).2)
        ready wholeUpper int_known cleanUpper
      refine .of_scope_eq ready ?_ (.forTo fitsLower fitsUpper free checks)
        ⟨Binder.declare_ty _ _ _ _, first, second, proper⟩
      show (bindBlock body _).2.scope.pop = b.scope
      rw [scope, (Binder.declare_clean named cleanVar).1]
      exact Scope.pop_push_extend _ _
  | expr e =>
      rw [bindStmt_expr] at clean ⊢
      dsimp only at clean
      obtain ⟨-, cleanExpr⟩ := Binder.check_clean clean
      have judged := resolve_judged ready e whole cleanExpr
      exact ⟨.expr judged.typed, judged.proper, ready⟩

/-- Whether a statement that the rules let stand binds without a problem, and leaves the variables
that they give. -/
def Passes (s : Syntax.Stmt) : Prop :=
  ∀ b : Binder, b.scope.Ready → s.Whole → b.problems = [] →
    ∀ Δ, Checks b.scope.context s Δ →
      (bindStmt s b).2.problems = [] ∧ (bindStmt s b).2.scope.context = Δ

theorem bindStmts_complete {body : List Syntax.Stmt} (each : ∀ s ∈ body, Passes s) {b : Binder}
    (ready : b.scope.Ready) (whole : Syntax.Stmt.WholeAll body) (before : b.problems = [])
    {Δ : Rules.Context} (checks : ChecksAll b.scope.context body Δ) :
    (bindStmts body b).2.problems = [] ∧ (bindStmts body b).2.scope.context = Δ := by
  induction body generalizing b with
  | nil =>
      cases checks
      rw [bindStmts_nil]
      exact ⟨before, rfl⟩
  | cons s ss ih =>
      cases checks with
      | cons first rest =>
          rw [List.forall_mem_cons] at each
          obtain ⟨clean, rfl⟩ := each.1 b ready whole.1 before _ first
          -- that the next statement starts in a scope of known types is known from soundness
          have sound := bindStmt_sound s b ready whole.1 clean
          rw [bindStmts_cons]
          exact ih each.2 sound.ready whole.2 clean rest

theorem bindBlock_complete {body : Syntax.Block} (each : ∀ s ∈ body.statements, Passes s)
    {b : Binder} {scope : Scope} (ready : scope.Ready) (whole : body.Whole)
    (before : b.problems = []) {Δ : Rules.Context}
    (checks : ChecksAll ([] :: scope.context) body.statements Δ) (same : b.scope = scope) :
    (bindBlock body b).2.problems = [] ∧ (bindBlock body b).2.scope = scope := by
  subst same
  have clean : (bindBlock body b).2.problems = [] := by
    rw [bindBlock_eq]
    exact (bindStmts_complete each (b := b.enter) ready.push (Block.wholeAll whole) before checks).1
  exact ⟨clean, (bindBlock_sound (fun s _ => bindStmt_sound s) ready whole clean rfl).2.2⟩

theorem Binder.check_to_clean {b : Binder} {scope : Scope} (ready : scope.Ready) {e : Syntax.Expr}
    (whole : e.Whole) {ty : Ty} (known : ty ≠ .unknown) (before : b.problems = [])
    (fits : Fits scope.context e ty) (same : b.scope = scope) :
    (b.check (resolveTo · e ty)).2.problems = [] := by
  subst same
  exact check_clean_iff.2 ⟨before, (resolveTo_clean_iff ready whole known).2 fits⟩

/-- A statement that the rules let stand binds without a problem. -/
theorem bindStmt_complete (s : Syntax.Stmt) : Passes s := by
  induction s using Syntax.Stmt.induction with
  | block body ih =>
      intro b ready whole before Δ checks
      cases checks with
      | block checks =>
          obtain ⟨clean, scope⟩ := bindBlock_complete ih ready whole before checks rfl
          rw [bindStmt]
          exact ⟨clean, by rw [scope]⟩
  | var span name mutable ty init =>
      intro b ready whole before Δ checks
      cases checks with
      | var declares free =>
          obtain ⟨named, -, wholeInit⟩ := whole
          obtain ⟨cleanFirst, rfl⟩ := firstValue_complete ready wholeInit before declares
          have scope := firstValue_scope ty init b
          have readyFirst : (firstValue ty init b).2.scope.Ready := by
            rw [scope]
            exact ready
          rw [← scope] at free
          have clean : ((firstValue ty init b).2.declare name mutable
              (firstValue ty init b).1.1).2.problems = [] :=
            (Binder.declare_clean_iff readyFirst named).2 ⟨cleanFirst, free⟩
          rw [bindStmt_var]
          refine ⟨clean, ?_⟩
          rw [Binder.declare_context named clean, scope]
  | ifThen span test yes ih =>
      intro b ready whole before Δ checks
      cases checks with
      | ifThen fits checks =>
          have cleanTest := Binder.check_to_clean ready whole.1 bool_known before fits rfl
          obtain ⟨clean, scope⟩ := bindBlock_complete ih ready whole.2 cleanTest checks rfl
          rw [bindStmt_ifThen]
          exact ⟨clean, by rw [scope]⟩
  | ifElse span test yes no ihYes ihNo =>
      intro b ready whole before Δ checks
      cases checks with
      | ifElse fits checksYes checksNo =>
          have cleanTest := Binder.check_to_clean ready whole.1 bool_known before fits rfl
          obtain ⟨cleanYes, scopeYes⟩ :=
            bindBlock_complete ihYes ready whole.2.1 cleanTest checksYes rfl
          obtain ⟨clean, scope⟩ :=
            bindBlock_complete ihNo ready whole.2.2 cleanYes checksNo scopeYes
          rw [bindStmt_ifElse]
          exact ⟨clean, by rw [scope]⟩
  | whileLoop span test body ih =>
      intro b ready whole before Δ checks
      cases checks with
      | whileLoop fits checks =>
          cases test with
          | none =>
              obtain ⟨clean, scope⟩ := bindBlock_complete ih ready whole.2 before checks rfl
              rw [bindStmt_whileLoop_none]
              exact ⟨clean, by rw [scope]⟩
          | some test =>
              have cleanTest :=
                Binder.check_to_clean ready (whole.1 test rfl) bool_known before (fits test rfl) rfl
              obtain ⟨clean, scope⟩ := bindBlock_complete ih ready whole.2 cleanTest checks rfl
              rw [bindStmt_whileLoop_some]
              exact ⟨clean, by rw [scope]⟩
  | doWhile span body test ih =>
      intro b ready whole before Δ checks
      cases checks with
      | doWhile checks fits =>
          obtain ⟨cleanBody, scope⟩ := bindBlock_complete ih ready whole.1 before checks rfl
          have clean := Binder.check_to_clean ready whole.2 bool_known cleanBody fits scope
          rw [bindStmt_doWhile]
          exact ⟨clean, congrArg Scope.context scope⟩
  | forTo span var mutable lower upper body ih =>
      intro b ready whole before Δ checks
      cases checks with
      | forTo fitsLower fitsUpper free checks =>
          obtain ⟨named, wholeLower, wholeUpper, wholeBody⟩ := whole
          have cleanLower := Binder.check_to_clean ready wholeLower int_known before fitsLower rfl
          have cleanUpper := Binder.check_to_clean ready wholeUpper int_known cleanLower fitsUpper rfl
          have cleanVar :
              ((((b.check (resolveTo · lower .int)).2.check (resolveTo · upper .int)).2.enter).declare
                var mutable .int).2.problems = [] :=
            (Binder.declare_clean_iff ready.push named).2 ⟨cleanUpper, free⟩
          have readyBody := Binder.declare_ready ready.push int_known named cleanVar
          have context := Binder.declare_context named cleanVar
          obtain ⟨clean, scope⟩ := bindBlock_complete ih readyBody wholeBody cleanVar
            (by rw [context]; exact checks) rfl
          rw [bindStmt_forTo]
          refine ⟨clean, ?_⟩
          show (bindBlock body _).2.scope.pop.context = b.scope.context
          rw [scope, (Binder.declare_clean named cleanVar).1]
          exact congrArg Scope.context (Scope.pop_push_extend _ _)
  | expr e =>
      intro b ready whole before Δ checks
      cases checks with
      | expr typed =>
          rw [bindStmt_expr]
          have clean := (resolve_complete ready e whole typed).1
          exact ⟨List.append_eq_nil_iff.2 ⟨before, clean⟩, rfl⟩

/-! ## Programs -/

/-- The context around a program: the variables of each program before it, newest first, and around
them the block of the functions, which has no variables. -/
def contextAfter (earlier : List Submission) : Rules.Context :=
  earlier.map (fun s => s.vars.map Variable.entry) ++ [[]]

/-- Whether a program is well typed after others. -/
def WellTyped (earlier : List Submission) (program : Syntax.Program) : Prop :=
  ∃ Δ, ChecksAll ([] :: contextAfter earlier) program.statements Δ

theorem context_scopeAfter (earlier : List Submission) :
    (scopeAfter earlier).context = contextAfter earlier := by
  have builtins : Scope.builtins.context = [[]] := by decide
  have outer : Scope.builtins.frames.map (fun f => f.vars.map Variable.entry) = [[]] := builtins
  rw [Scope.context, frames_scopeAfter, List.map_append, outer, List.map_map]
  rfl

theorem overloads_builtins (name : String) : Scope.builtins.overloads name = functionsOf name := by
  have same : Scope.builtins.overloads name =
      ([(Builtin.all.map Builtin.function).filter (·.name = name)].find? (!·.isEmpty)).getD [] := rfl
  have functions : (Builtin.all.map Builtin.function).filter (·.name = name) = functionsOf name :=
    List.filter_map
  rw [same, functions]
  cases functionsOf name <;> rfl

theorem overloads_scopeAfter (earlier : List Submission) (name : String) :
    (scopeAfter earlier).overloads name = functionsOf name := by
  have none : ((earlier.map Submission.frame).map (·.overloads name)).find? (!·.isEmpty) = none := by
    simp [Submission.frame, Frame.overloads]
  rw [← overloads_builtins, Scope.overloads, Scope.overloads, frames_scopeAfter, List.map_append,
    List.find?_append, none, Option.none_or]

/-- After programs in which every variable has a known type, binding can start. -/
theorem ready_scopeAfter {earlier : List Submission}
    (known : ∀ s ∈ earlier, ∀ v ∈ s.vars, v.ty ≠ .unknown) : (scopeAfter earlier).Ready where
  vars := by
    intro v member
    obtain ⟨s, listed, stored⟩ := List.mem_flatMap.1 (mem_vars_scopeAfter.1 member)
    exact known s (List.mem_reverse.1 listed) v stored
  overloads := overloads_scopeAfter earlier

theorem ready_atStart {earlier : List Submission}
    (known : ∀ s ∈ earlier, ∀ v ∈ s.vars, v.ty ≠ .unknown) (nextId : Nat) :
    (Binder.atStart earlier nextId).scope.Ready :=
  (ready_scopeAfter known).push

theorem context_atStart (earlier : List Submission) (nextId : Nat) :
    (Binder.atStart earlier nextId).scope.context = [] :: contextAfter earlier :=
  congrArg (List.cons []) (context_scopeAfter earlier)

/-- After programs without diagnostics, all diagnostics are those of the program itself. -/
theorem diagnostics_eq_nil_iff {earlier : List Submission}
    (clean : ∀ s ∈ earlier, s.diagnostics = []) (nextId : Nat) (source : Source)
    (program : Syntax.Program) :
    (bindProgram earlier nextId source program).1.diagnostics = [] ↔
      (bindStmts program.statements (.atStart earlier nextId)).2.problems = [] := by
  have inherited : (earlier.head?.map Submission.diagnostics).getD [] = [] := by
    cases earlier with
    | nil => rfl
    | cons newest older => exact clean newest List.mem_cons_self
  have own : (bindProgram earlier nextId source program).1.diagnostics =
      (bindStmts program.statements (.atStart earlier nextId)).2.problems.map
        (Problem.diagnostic source) ++ (earlier.head?.map Submission.diagnostics).getD [] := rfl
  rw [own, inherited, List.append_nil, List.map_eq_nil_iff]

/-- The context after a program has the variables of the program in a block of their own. -/
theorem context_bindStmts {earlier : List Submission} {nextId : Nat} {body : List Syntax.Stmt}
    (whole : Syntax.Stmt.WholeAll body)
    (clean : (bindStmts body (.atStart earlier nextId)).2.problems = []) :
    (bindStmts body (.atStart earlier nextId)).2.scope.context =
      (bindStmts body (.atStart earlier nextId)).2.scope.declared.map Variable.entry ::
        contextAfter earlier := by
  have bound := bindStmts_wellBound (fun s _ => bindStmt_wellBound s) _ whole clean
  rw [← context_scopeAfter, bound.scope]
  rfl

/-- What a program without diagnostics is bound to. -/
theorem bindProgram_sound {earlier : List Submission}
    (clean : ∀ s ∈ earlier, s.diagnostics = [])
    (known : ∀ s ∈ earlier, ∀ v ∈ s.vars, v.ty ≠ .unknown) {nextId : Nat} {source : Source}
    {program : Syntax.Program} (whole : Syntax.Stmt.WholeAll program.statements)
    (bound : (bindProgram earlier nextId source program).1.diagnostics = []) :
    (bindProgram earlier nextId source program).1.statement.Proper ∧
      (∀ v ∈ (bindProgram earlier nextId source program).1.vars, v.ty ≠ .unknown) ∧
      ChecksAll ([] :: contextAfter earlier) program.statements
        ((bindProgram earlier nextId source program).1.vars.map Variable.entry ::
          contextAfter earlier) := by
  rw [diagnostics_eq_nil_iff clean] at bound
  obtain ⟨checks, proper, readyAfter⟩ := bindStmts_sound (fun s _ => bindStmt_sound s) _
    (ready_atStart known nextId) whole bound
  rw [context_atStart, context_bindStmts whole bound] at checks
  refine ⟨proper, fun v member => ?_, checks⟩
  exact readyAfter.vars v (List.mem_flatMap.2 ⟨_, List.mem_cons_self, member⟩)

/-- After programs without diagnostics in which every variable has a known type, a program in which
no name is missing is bound without diagnostics exactly if it is well typed.  It is then proper, and
its variables are those that the rules give. -/
theorem bindProgram_clean_iff {earlier : List Submission}
    (clean : ∀ s ∈ earlier, s.diagnostics = [])
    (known : ∀ s ∈ earlier, ∀ v ∈ s.vars, v.ty ≠ .unknown) (nextId : Nat) (source : Source)
    {program : Syntax.Program} (whole : Syntax.Stmt.WholeAll program.statements) :
    ((bindProgram earlier nextId source program).1.diagnostics = [] ↔ WellTyped earlier program) ∧
      ((bindProgram earlier nextId source program).1.diagnostics = [] →
        (bindProgram earlier nextId source program).1.statement.Proper ∧
        (∀ v ∈ (bindProgram earlier nextId source program).1.vars, v.ty ≠ .unknown) ∧
        ChecksAll ([] :: contextAfter earlier) program.statements
          ((bindProgram earlier nextId source program).1.vars.map Variable.entry ::
            contextAfter earlier)) := by
  refine ⟨⟨?_, ?_⟩, bindProgram_sound clean known whole⟩
  · intro bound
    exact ⟨_, (bindProgram_sound clean known whole bound).2.2⟩
  · rintro ⟨Δ, checks⟩
    rw [← context_atStart earlier nextId] at checks
    rw [diagnostics_eq_nil_iff clean]
    exact (bindStmts_complete (fun s _ => bindStmt_complete s) (ready_atStart known nextId) whole rfl
      checks).1

/-- Chains of programs without diagnostics in which no name is missing. -/
inductive WholeChain : List Submission → Prop where
  | nil : WholeChain []
  | cons {earlier : List Submission} {nextId : Nat} {source : Source} {program : Syntax.Program}
      (chain : WholeChain earlier) (whole : Syntax.Stmt.WholeAll program.statements)
      (bound : (bindProgram earlier nextId source program).1.diagnostics = []) :
      WholeChain ((bindProgram earlier nextId source program).1 :: earlier)

/-- No variable of such a chain has an unknown type. -/
theorem WholeChain.known {earlier : List Submission} (chain : WholeChain earlier) :
    (∀ s ∈ earlier, s.diagnostics = []) ∧ ∀ s ∈ earlier, ∀ v ∈ s.vars, v.ty ≠ .unknown := by
  induction chain with
  | nil => exact ⟨List.forall_mem_nil _, List.forall_mem_nil _⟩
  | cons chain whole bound ih =>
      obtain ⟨-, known, -⟩ := bindProgram_sound ih.1 ih.2 whole bound
      exact ⟨List.forall_mem_cons.2 ⟨bound, ih.1⟩, List.forall_mem_cons.2 ⟨known, ih.2⟩⟩

def declaring : Syntax.Tree := .ofText "var mut n = 2"

def looping : Syntax.Tree := .ofText "n = n + 1; for k = 0 to n \x7b print(\"#\" + k) \x7d"

theorem looping_clean_iff :
    WholeChain [(bindProgram [] 0 declaring.source declaring.root).1] ∧
      WellTyped [(bindProgram [] 0 declaring.source declaring.root).1] looping.root ∧
      (bindProgram [(bindProgram [] 0 declaring.source declaring.root).1] 1 looping.source
        looping.root).1.statement.Proper := by
  have chain : WholeChain [(bindProgram [] 0 declaring.source declaring.root).1] :=
    .cons .nil (Syntax.Tree.whole_ofText (by decide +kernel)) (by decide +kernel)
  obtain ⟨clean, known⟩ := chain.known
  have whole : Syntax.Stmt.WholeAll looping.root.statements :=
    Syntax.Tree.whole_ofText (by decide +kernel)
  have bound : (bindProgram [(bindProgram [] 0 declaring.source declaring.root).1] 1 looping.source
      looping.root).1.diagnostics = [] := by
    decide +kernel
  obtain ⟨accepted, proper⟩ := bindProgram_clean_iff clean known 1 looping.source whole
  exact ⟨chain, accepted.1 bound, (proper bound).1⟩

/-- A variable without its first value is not reported by binding, and neither is what uses it in a
later program.  Also, a cast reads a string as a truth value. -/
theorem unknown_goes_on :
    (∃ first second : Attempt, first = .bind [] 0 (.ofText "var x = ") ∧
      second = .bind first.chain first.nextId (.ofText "var y = x") ∧
      first.submission.diagnostics = [] ∧ second.tree.diagnostics = [] ∧
      Syntax.Stmt.WholeAll second.tree.root.statements ∧ second.submission.diagnostics = [] ∧
      second.submission.vars.map (·.ty) = [.unknown]) ∧
    (Attempt.bind [] 0 (.ofText "var b = bool(\"true\")")).submission.diagnostics = [] ∧
    (Attempt.bind [] 0 (.ofText "var b = bool(\"true\")")).submission.vars.map (·.ty) = [.bool] := by
  refine ⟨⟨_, _, rfl, rfl, by decide +kernel, by decide +kernel, ?_, by decide +kernel,
    by decide +kernel⟩, by decide +kernel, by decide +kernel⟩
  exact Syntax.Tree.whole_ofText (by decide +kernel)

end Bound

end ScriptLang
