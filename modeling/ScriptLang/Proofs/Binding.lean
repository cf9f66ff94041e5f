/-
# ScriptLang.Proofs.Binding -- statements that bind without a problem

Binding goes on from one statement to the next: problems are added and never
taken back, and every declaration takes the next number (`Binder.Grows`).

A statement in which no name is missing and that binds without a problem is
`WellBound`: its declarations have the numbers from the counter before it to the
counter after it, the scope after it has the variables that it leaves and is
otherwise as before, and types fit in it wherever the variables of the scope
have values of their types (`bindStmt_wellBound`).
-/
import ScriptLang.Bound.Bind
import ScriptLang.Proofs.FlatCode
import ScriptLang.Proofs.Resolving

namespace ScriptLang

set_option autoImplicit false

/-! ## Scopes -/

namespace Scope

/-- A scope with more variables in its innermost block. -/
def extend (s : Scope) (vs : List Variable) : Scope :=
  { s with inner := { s.inner with vars := s.inner.vars ++ vs } }

@[simp] theorem extend_nil (s : Scope) : s.extend [] = s := by
  simp [extend]

theorem extend_extend (s : Scope) (vs us : List Variable) :
    (s.extend vs).extend us = s.extend (vs ++ us) := by
  simp [extend]

@[simp] theorem pop_push_extend (s : Scope) (vs : List Variable) : (s.push.extend vs).pop = s := by
  simp [pop, pop?, extend, push, frames]

theorem mem_vars_extend {s : Scope} {vs : List Variable} {v : Variable} :
    v ∈ (s.extend vs).vars ↔ v ∈ s.vars ∨ v ∈ vs := by
  simp only [vars, frames, extend, List.flatMap_cons, List.mem_append]
  constructor
  · rintro ((here | new) | outer)
    · exact .inl (.inl here)
    · exact .inr new
    · exact .inl (.inr outer)
  · rintro ((here | outer) | new)
    · exact .inl (.inl here)
    · exact .inr outer
    · exact .inl (.inr new)

theorem vars_push (s : Scope) : s.push.vars = s.vars := by
  simp [vars, push, frames, Frame.empty]

theorem functions_push (s : Scope) : s.push.functions = s.functions := by
  simp [functions, push, frames, Frame.empty]

variable {τ : Nat → Ty} {Γ Δ : List Nat} {s : Scope}

theorem Fits.push (fits : s.Fits τ Γ) : s.push.Fits τ Γ where
  vars := by rw [vars_push]; exact fits.vars
  functions := by rw [functions_push]; exact fits.functions

theorem Fits.extend (fits : s.Fits τ Γ) (sub : Γ ⊆ Δ) {vs : List Variable}
    (new : ∀ v ∈ vs, v.id ∈ Δ ∧ v.ty = τ v.id ∧ v.ty ≠ .unknown) : (s.extend vs).Fits τ Δ where
  vars := by
    intro v member
    rcases mem_vars_extend.1 member with old | member
    · obtain ⟨stored, ty⟩ := fits.vars v old
      exact ⟨sub stored, ty⟩
    · exact new v member
  functions := fits.functions

end Scope

namespace Bound

/-! ## One binder after another -/

/-- Whether a binder comes after another: it has the problems of the first, and numbers are not
given back. -/
structure Binder.Grows (b b' : Binder) : Prop where
  problems : ∃ more, b'.problems = b.problems ++ more
  nextId : b.nextId ≤ b'.nextId

namespace Binder

theorem Grows.refl (b : Binder) : b.Grows b := ⟨⟨[], (List.append_nil _).symm⟩, Nat.le_refl _⟩

theorem Grows.trans {b b' b'' : Binder} (first : b.Grows b') (second : b'.Grows b'') :
    b.Grows b'' := by
  obtain ⟨more, same⟩ := first.problems
  obtain ⟨more', same'⟩ := second.problems
  refine ⟨⟨more ++ more', ?_⟩, Nat.le_trans first.nextId second.nextId⟩
  rw [same', same, List.append_assoc]

/-- Where the problems of a later binder are kept, so are those that were there before. -/
theorem Grows.within {b b' : Binder} (grows : b.Grows b') {problems : List Problem}
    (kept : b'.problems ⊆ problems) : b.problems ⊆ problems := by
  obtain ⟨more, same⟩ := grows.problems
  rw [same] at kept
  exact (List.append_subset.1 kept).1

/-- What comes before a binder without problems has none. -/
theorem Grows.clean {b b' : Binder} (grows : b.Grows b') (clean : b'.problems = []) :
    b.problems = [] := by
  obtain ⟨more, same⟩ := grows.problems
  rw [same] at clean
  exact (List.append_eq_nil_iff.1 clean).1

theorem grows_check {α : Type} (b : Binder) (f : Scope → Checked α) : b.Grows (b.check f).2 :=
  ⟨⟨_, rfl⟩, Nat.le_refl _⟩

theorem check_value {α : Type} (b : Binder) (f : Scope → Checked α) :
    (b.check f).1 = (f b.scope).value := rfl

theorem check_clean {α : Type} {b : Binder} {f : Scope → Checked α}
    (clean : (b.check f).2.problems = []) : b.problems = [] ∧ (f b.scope).problems = [] :=
  List.append_eq_nil_iff.1 clean

theorem grows_enter (b : Binder) : b.Grows b.enter := ⟨⟨[], (List.append_nil _).symm⟩, Nat.le_refl _⟩

theorem grows_leave (b : Binder) : b.Grows b.leave := ⟨⟨[], (List.append_nil _).symm⟩, Nat.le_refl _⟩

theorem grows_report (b : Binder) (span : Span) (cause : Cause) : b.Grows (b.report span cause) :=
  ⟨⟨_, rfl⟩, Nat.le_refl _⟩

theorem grows_resolveType (b : Binder) (written : Syntax.Name) :
    b.Grows (b.resolveType written).2 := by
  unfold resolveType
  split
  · exact .refl b
  · exact grows_report b _ _

theorem grows_declaredType (b : Binder) (ty : Option Syntax.Name) (init : Expr) :
    b.Grows (declaredType b ty init).2 := by
  unfold declaredType
  split
  · exact grows_resolveType b _
  · exact .refl b

/-- A missing name is not declared, but its number is used up. -/
theorem declare_missing {b : Binder} {name : Syntax.Name} (missing : name.isMissing = true)
    (mutable : Bool) (ty : Ty) :
    (b.declare name mutable ty).2 = { b with nextId := b.nextId + 1 } := by
  unfold declare
  rw [if_pos missing]

/-- A name that is taken is refused, but its number is used up. -/
theorem declare_taken {b : Binder} {name : Syntax.Name} (here : name.isMissing = false)
    (taken : (b.scope.function? name.text).isSome ∨ (b.scope.inner.find? name.text).isSome)
    (mutable : Bool) (ty : Ty) :
    (b.declare name mutable ty).2 =
      ({ b with nextId := b.nextId + 1 } : Binder).report name.span (.alreadyDeclared name.text) := by
  unfold declare Scope.declare?
  simp only [here, Bool.false_eq_true, if_false]
  cases found : b.scope.function? name.text with
  | some f => rfl
  | none =>
      rw [found] at taken
      have stored := taken.resolve_left (by simp)
      simp [stored]

/-- A name that is free in the innermost block can be declared. -/
theorem declare_free {b : Binder} {name : Syntax.Name} (here : name.isMissing = false)
    (free : b.scope.function? name.text = none) (new : b.scope.inner.find? name.text = none)
    (mutable : Bool) (ty : Ty) :
    (b.declare name mutable ty).2 =
      { b with
        scope := b.scope.extend [⟨b.nextId, name.text, ty, mutable, some name.span⟩]
        nextId := b.nextId + 1 } := by
  unfold declare Scope.declare?
  simp only [here, free, new, Option.isSome_none, Bool.false_eq_true, if_false]
  rfl

/-- All that a declaration can do to the binder. -/
theorem declare_cases (b : Binder) (name : Syntax.Name) (mutable : Bool) (ty : Ty) :
    (name.isMissing = true ∧
      (b.declare name mutable ty).2 = { b with nextId := b.nextId + 1 }) ∨
    ((name.isMissing = false ∧
        ((b.scope.function? name.text).isSome ∨ (b.scope.inner.find? name.text).isSome)) ∧
      (b.declare name mutable ty).2 =
        ({ b with nextId := b.nextId + 1 } : Binder).report name.span (.alreadyDeclared name.text)) ∨
    ((name.isMissing = false ∧ b.scope.function? name.text = none ∧
        b.scope.inner.find? name.text = none) ∧
      (b.declare name mutable ty).2 =
        { b with
          scope := b.scope.extend [⟨b.nextId, name.text, ty, mutable, some name.span⟩]
          nextId := b.nextId + 1 }) := by
  by_cases missing : name.isMissing = true
  · exact .inl ⟨missing, declare_missing missing mutable ty⟩
  rw [Bool.not_eq_true] at missing
  by_cases taken : (b.scope.function? name.text).isSome ∨ (b.scope.inner.find? name.text).isSome
  · exact .inr (.inl ⟨⟨missing, taken⟩, declare_taken missing taken mutable ty⟩)
  · simp only [not_or, Bool.not_eq_true, Option.isSome_eq_false_iff, Option.isNone_iff_eq_none]
      at taken
    exact .inr (.inr ⟨⟨missing, taken⟩, declare_free missing taken.1 taken.2 mutable ty⟩)

theorem grows_declare (b : Binder) (name : Syntax.Name) (mutable : Bool) (ty : Ty) :
    b.Grows (b.declare name mutable ty).2 := by
  have counted : b.Grows { b with nextId := b.nextId + 1 } :=
    ⟨⟨[], (List.append_nil _).symm⟩, Nat.le_succ _⟩
  rcases b.declare_cases name mutable ty with ⟨-, eq⟩ | ⟨-, eq⟩ | ⟨-, eq⟩
  · exact eq ▸ counted
  · exact eq ▸ counted.trans (grows_report _ _ _)
  · exact eq ▸ ⟨counted.problems, counted.nextId⟩

theorem declare_nextId (b : Binder) (name : Syntax.Name) (mutable : Bool) (ty : Ty) :
    (b.declare name mutable ty).2.nextId = b.nextId + 1 := by
  rcases b.declare_cases name mutable ty with ⟨-, eq⟩ | ⟨-, eq⟩ | ⟨-, eq⟩
  · rw [eq]
  · rw [eq]
    rfl
  · rw [eq]

theorem declare_variable (b : Binder) (name : Syntax.Name) (mutable : Bool) (ty : Ty) :
    (b.declare name mutable ty).1 = ⟨b.nextId, name.text, ty, mutable, some name.span⟩ := by
  unfold declare
  dsimp only
  split
  · rfl
  · split
    · rfl
    · split <;> rfl

theorem declare_ty (b : Binder) (name : Syntax.Name) (mutable : Bool) (ty : Ty) :
    (b.declare name mutable ty).1.ty = ty := by
  rw [declare_variable]

/-- A declaration without a problem adds the variable to the innermost block, where its name is
new. -/
theorem declare_clean {b : Binder} {name : Syntax.Name} {mutable : Bool} {ty : Ty}
    (here : name.isMissing = false) (clean : (b.declare name mutable ty).2.problems = []) :
    (b.declare name mutable ty).2.scope = b.scope.extend [(b.declare name mutable ty).1] ∧
      b.scope.function? name.text = none ∧ b.scope.inner.find? name.text = none := by
  rcases b.declare_cases name mutable ty with ⟨missing, -⟩ | ⟨-, eq⟩ | ⟨⟨-, free⟩, eq⟩
  · rw [here] at missing
    cases missing
  · rw [eq] at clean
    exact absurd clean (List.append_ne_nil_of_right_ne_nil _ (List.cons_ne_nil _ _))
  · rw [eq, declare_variable]
    exact ⟨rfl, free⟩

end Binder

/-! ## Statements -/

theorem bindStmts_cons (s : Syntax.Stmt) (ss : List Syntax.Stmt) (b : Binder) :
    bindStmts (s :: ss) b =
      ((bindStmt s b).1 :: (bindStmts ss (bindStmt s b).2).1,
        (bindStmts ss (bindStmt s b).2).2) := by
  rw [bindStmts]

theorem bindBlock_eq (body : Syntax.Block) (b : Binder) :
    bindBlock body b =
      (.block (bindStmts body.statements b.enter).1,
        (bindStmts body.statements b.enter).2.leave) := by
  cases body
  rw [bindBlock]
  rfl

/-- The type of a declared variable and its first value, converted to that type. -/
def firstValue (ty : Option Syntax.Name) (init : Syntax.Expr) (b : Binder) : (Ty × Expr) × Binder :=
  let first := b.check (resolveValue · init)
  let varTy := declaredType first.2 ty first.1
  let converted := varTy.2.check fun _ => convertTo first.1 init.span varTy.1 false
  ((varTy.1, converted.1), converted.2)

/-- Finding the type of a declaration changes neither scope nor counter. -/
theorem declaredType_same (b : Binder) (ty : Option Syntax.Name) (init : Expr) :
    (declaredType b ty init).2.scope = b.scope ∧ (declaredType b ty init).2.nextId = b.nextId := by
  unfold declaredType Binder.resolveType
  split
  · split <;> exact ⟨rfl, rfl⟩
  · exact ⟨rfl, rfl⟩

theorem firstValue_scope (ty : Option Syntax.Name) (init : Syntax.Expr) (b : Binder) :
    (firstValue ty init b).2.scope = b.scope :=
  (declaredType_same _ _ _).1

theorem firstValue_nextId (ty : Option Syntax.Name) (init : Syntax.Expr) (b : Binder) :
    (firstValue ty init b).2.nextId = b.nextId :=
  (declaredType_same _ _ _).2

theorem grows_firstValue (ty : Option Syntax.Name) (init : Syntax.Expr) (b : Binder) :
    b.Grows (firstValue ty init b).2 := by
  unfold firstValue
  dsimp only
  exact ((b.grows_check _).trans (Binder.grows_declaredType _ _ _)).trans (Binder.grows_check _ _)

/-- A first value without a problem resolves, has its type and is converted without one. -/
theorem firstValue_clean {ty : Option Syntax.Name} {init : Syntax.Expr} {b : Binder}
    (clean : (firstValue ty init b).2.problems = []) :
    let first := b.check (resolveValue · init)
    (resolveValue b.scope init).problems = [] ∧ (declaredType first.2 ty first.1).2.problems = [] ∧
      (convertTo first.1 init.span (firstValue ty init b).1.1 false).problems = [] := by
  unfold firstValue at clean
  dsimp only at clean
  obtain ⟨typed, converted⟩ := Binder.check_clean clean
  exact ⟨(Binder.check_clean ((Binder.grows_declaredType _ _ _).clean typed)).2, typed, converted⟩

theorem bindStmt_var (span : Span) (name : Syntax.Name) (mutable : Bool) (ty : Option Syntax.Name)
    (init : Syntax.Expr) (b : Binder) :
    bindStmt (.var span name mutable ty init) b =
      let first := firstValue ty init b
      let declared := first.2.declare name mutable first.1.1
      (.declare declared.1 first.1.2, declared.2) := by
  rw [bindStmt]
  rfl

theorem bindStmt_ifThen (span : Span) (test : Syntax.Expr) (yes : Syntax.Block) (b : Binder) :
    bindStmt (.ifThen span test yes) b =
      let tested := b.check (resolveTo · test .bool)
      let first := bindBlock yes tested.2
      (.ifThen tested.1 first.1, first.2) := by
  rw [bindStmt]

theorem bindStmt_ifElse (span : Span) (test : Syntax.Expr) (yes no : Syntax.Block) (b : Binder) :
    bindStmt (.ifElse span test yes no) b =
      let tested := b.check (resolveTo · test .bool)
      let first := bindBlock yes tested.2
      let second := bindBlock no first.2
      (.ifElse tested.1 first.1 second.1, second.2) := by
  rw [bindStmt]

theorem bindStmt_whileLoop_none (span : Span) (body : Syntax.Block) (b : Binder) :
    bindStmt (.whileLoop span none body) b =
      (.whileLoop (.literal (.bool true)) (bindBlock body b).1, (bindBlock body b).2) := by
  rw [bindStmt]

theorem bindStmt_whileLoop_some (span : Span) (test : Syntax.Expr) (body : Syntax.Block)
    (b : Binder) :
    bindStmt (.whileLoop span (some test) body) b =
      let tested := b.check (resolveTo · test .bool)
      let inner := bindBlock body tested.2
      (.whileLoop tested.1 inner.1, inner.2) := by
  rw [bindStmt]

theorem bindStmt_doWhile (span : Span) (body : Syntax.Block) (test : Syntax.Expr) (b : Binder) :
    bindStmt (.doWhile span body test) b =
      let inner := bindBlock body b
      let tested := inner.2.check (resolveTo · test .bool)
      (.doWhile inner.1 tested.1, tested.2) := by
  rw [bindStmt]

theorem bindStmt_forTo (span : Span) (var : Syntax.Name) (mutable : Bool)
    (lower upper : Syntax.Expr) (body : Syntax.Block) (b : Binder) :
    bindStmt (.forTo span var mutable lower upper body) b =
      let first := b.check (resolveTo · lower .int)
      let second := first.2.check (resolveTo · upper .int)
      let declared := second.2.enter.declare var mutable .int
      let inner := bindBlock body declared.2
      (.forTo declared.1 first.1 second.1 inner.1, inner.2.leave) := by
  rw [bindStmt]

/-- The bounds of a loop, whose variable is declared inside of it. -/
theorem bounds_clean {b : Binder} {lower upper : Syntax.Expr} {var : Syntax.Name} {mutable : Bool}
    (clean : ((((b.check (resolveTo · lower .int)).2.check (resolveTo · upper .int)).2.enter).declare
      var mutable .int).2.problems = []) :
    (resolveTo b.scope lower .int).problems = [] ∧ (resolveTo b.scope upper .int).problems = [] := by
  obtain ⟨first, cleanUpper⟩ := Binder.check_clean
    ((Binder.grows_enter _).clean ((Binder.grows_declare _ _ _ _).clean clean))
  exact ⟨(Binder.check_clean first).2, cleanUpper⟩

theorem grows_bindStmts {body : List Syntax.Stmt}
    (each : ∀ s ∈ body, ∀ b : Binder, b.Grows (bindStmt s b).2) (b : Binder) :
    b.Grows (bindStmts body b).2 := by
  induction body generalizing b with
  | nil => rw [bindStmts_nil]; exact .refl b
  | cons s ss ih =>
      rw [bindStmts_cons]
      exact (each s List.mem_cons_self b).trans
        (ih (fun s member => each s (List.mem_cons_of_mem _ member)) _)

theorem grows_bindBlock {body : Syntax.Block}
    (each : ∀ s ∈ body.statements, ∀ b : Binder, b.Grows (bindStmt s b).2) (b : Binder) :
    b.Grows (bindBlock body b).2 := by
  rw [bindBlock_eq]
  exact b.grows_enter.trans ((grows_bindStmts each b.enter).trans (Binder.grows_leave _))

/-- Binding a statement adds problems and takes numbers. -/
theorem grows_bindStmt (s : Syntax.Stmt) (b : Binder) : b.Grows (bindStmt s b).2 := by
  induction s using Syntax.Stmt.induction generalizing b with
  | block body ih =>
      rw [bindStmt]
      exact grows_bindBlock ih b
  | var span name mutable ty init =>
      rw [bindStmt_var]
      exact (grows_firstValue ty init b).trans (Binder.grows_declare _ _ _ _)
  | ifThen span test yes ih =>
      rw [bindStmt_ifThen]
      exact (b.grows_check _).trans (grows_bindBlock ih _)
  | ifElse span test yes no ihYes ihNo =>
      rw [bindStmt_ifElse]
      exact ((b.grows_check _).trans (grows_bindBlock ihYes _)).trans (grows_bindBlock ihNo _)
  | whileLoop span test body ih =>
      cases test with
      | none =>
          rw [bindStmt_whileLoop_none]
          exact grows_bindBlock ih b
      | some test =>
          rw [bindStmt_whileLoop_some]
          exact (b.grows_check _).trans (grows_bindBlock ih _)
  | doWhile span body test ih =>
      rw [bindStmt_doWhile]
      exact (grows_bindBlock ih b).trans (Binder.grows_check _ (resolveTo · test .bool))
  | forTo span var mutable lower upper body ih =>
      rw [bindStmt_forTo]
      have bounds := (b.grows_check (resolveTo · lower .int)).trans
        (Binder.grows_check _ (resolveTo · upper .int))
      exact bounds.trans ((Binder.grows_enter _).trans ((Binder.grows_declare _ _ _ _).trans
        ((grows_bindBlock ih _).trans (Binder.grows_leave _))))
  | expr e =>
      rw [bindStmt_expr]
      exact b.grows_check (resolve · e)

theorem grows_all (body : List Syntax.Stmt) (b : Binder) : b.Grows (bindStmts body b).2 :=
  grows_bindStmts (fun s _ => grows_bindStmt s) b

/-- What binding makes of a statement in which nothing is wrong. -/
structure WellBound (b : Binder) (s : Stmt) (b' : Binder) : Prop where
  /-- The scope has the variables that the statement leaves. -/
  scope : b'.scope = b.scope.extend s.leaves
  /-- Declarations take one number after the other. -/
  ids : s.declared.map (·.id) = interval b.nextId b'.nextId
  le : b.nextId ≤ b'.nextId
  /-- Types fit if they fit in the scope. -/
  typed : ∀ τ Γ, b.scope.Fits τ Γ → (∀ v ∈ s.declared, v.ty = τ v.id) →
    s.Typed τ Γ ∧ ∀ v ∈ s.leaves, v.ty ≠ .unknown

/-- What binding makes of statements in which nothing is wrong. -/
structure AllWellBound (b : Binder) (body : List Stmt) (b' : Binder) : Prop where
  scope : b'.scope = b.scope.extend (leavesOf body)
  ids : (Stmt.declaredIn body).map (·.id) = interval b.nextId b'.nextId
  le : b.nextId ≤ b'.nextId
  typed : ∀ τ Γ, b.scope.Fits τ Γ → (∀ v ∈ Stmt.declaredIn body, v.ty = τ v.id) →
    Stmt.TypedAll τ Γ body ∧ ∀ v ∈ leavesOf body, v.ty ≠ .unknown

theorem AllWellBound.nil (b : Binder) : AllWellBound b [] b where
  scope := (Scope.extend_nil _).symm
  ids := (interval_self _).symm
  le := Nat.le_refl _
  typed := fun _ _ _ _ => ⟨trivial, List.forall_mem_nil _⟩

theorem AllWellBound.cons {b b' b'' : Binder} {s : Stmt} {ss : List Stmt} (first : WellBound b s b')
    (rest : AllWellBound b' ss b'') : AllWellBound b (s :: ss) b'' where
  scope := by
    rw [rest.scope, first.scope, Scope.extend_extend]
    rfl
  ids := by
    rw [Stmt.declaredIn, List.map_append, first.ids, rest.ids,
      interval_append first.le rest.le]
  le := Nat.le_trans first.le rest.le
  typed := by
    intro τ Γ fits tys
    rw [Stmt.declaredIn] at tys
    have tysFirst : ∀ v ∈ s.declared, v.ty = τ v.id :=
      fun v member => tys v (List.mem_append.2 (.inl member))
    obtain ⟨typedFirst, knownFirst⟩ := first.typed τ Γ fits tysFirst
    have fits' : b'.scope.Fits τ (s.leaves.map (·.id) ++ Γ) := by
      rw [first.scope]
      refine fits.extend (List.subset_append_right _ _) fun v member => ⟨?_, ?_, knownFirst v member⟩
      · exact List.mem_append.2 (.inl (List.mem_map_of_mem member))
      · exact tysFirst v ((Stmt.leaves_sublist s).subset member)
    obtain ⟨typedRest, knownRest⟩ := rest.typed τ _ fits'
      fun v member => tys v (List.mem_append.2 (.inr member))
    refine ⟨⟨typedFirst, typedRest⟩, ?_⟩
    intro v member
    rcases List.mem_append.1 member with here | later
    · exact knownFirst v here
    · exact knownRest v later

theorem bindStmts_wellBound {body : List Syntax.Stmt}
    (each : ∀ s ∈ body, ∀ b : Binder, s.Whole → (bindStmt s b).2.problems = [] →
      WellBound b (bindStmt s b).1 (bindStmt s b).2)
    (b : Binder) (whole : Syntax.Stmt.WholeAll body) (clean : (bindStmts body b).2.problems = []) :
    AllWellBound b (bindStmts body b).1 (bindStmts body b).2 := by
  induction body generalizing b with
  | nil =>
      rw [bindStmts_nil]
      exact .nil b
  | cons s ss ih =>
      rw [bindStmts_cons] at clean ⊢
      have grows := grows_all ss (bindStmt s b).2
      have first := each s List.mem_cons_self b whole.1 (grows.clean clean)
      have rest := ih (fun s member => each s (List.mem_cons_of_mem _ member)) (bindStmt s b).2
        whole.2 clean
      exact .cons first rest

/-- A block leaves nothing. -/
theorem bindBlock_wellBound {body : Syntax.Block}
    (each : ∀ s ∈ body.statements, ∀ b : Binder, s.Whole → (bindStmt s b).2.problems = [] →
      WellBound b (bindStmt s b).1 (bindStmt s b).2)
    (b : Binder) (whole : body.Whole) (clean : (bindBlock body b).2.problems = []) :
    WellBound b (bindBlock body b).1 (bindBlock body b).2 := by
  have wholeAll : Syntax.Stmt.WholeAll body.statements := by
    cases body
    exact whole
  rw [bindBlock_eq] at clean ⊢
  have inner := bindStmts_wellBound each b.enter wholeAll clean
  refine ⟨?_, inner.ids, inner.le, fun τ Γ fits tys => ⟨?_, List.forall_mem_nil _⟩⟩
  · show (bindStmts body.statements b.enter).2.scope.pop = b.scope.extend []
    rw [inner.scope, Scope.extend_nil]
    exact Scope.pop_push_extend _ _
  · exact (inner.typed τ Γ fits.push tys).1

theorem leaves_bindBlock (body : Syntax.Block) (b : Binder) : (bindBlock body b).1.leaves = [] := by
  rw [bindBlock_eq]
  rfl

theorem WellBound.scope_eq {b b' : Binder} {s : Stmt} (bound : WellBound b s b')
    (none : s.leaves = []) : b'.scope = b.scope := by
  rw [bound.scope, none, Scope.extend_nil]

/-- Types fit in a statement that was bound in a scope in which they do. -/
theorem WellBound.typed_in {b b' : Binder} {s : Stmt} (bound : WellBound b s b') {scope : Scope}
    (same : b.scope = scope) {τ : Nat → Ty} {Γ : List Nat} (fits : scope.Fits τ Γ)
    (tys : ∀ v ∈ s.declared, v.ty = τ v.id) : s.Typed τ Γ :=
  (bound.typed τ Γ (same ▸ fits) tys).1

theorem grows_block (body : Syntax.Block) (b : Binder) : b.Grows (bindBlock body b).2 :=
  grows_bindBlock (fun s _ => grows_bindStmt s) b

theorem declaredType_known {b : Binder} {ty : Option Syntax.Name} {init : Expr}
    (known : init.ty ≠ .unknown) (clean : (declaredType b ty init).2.problems = []) :
    (declaredType b ty init).1 ≠ .unknown := by
  unfold declaredType at clean ⊢
  cases ty with
  | none => exact known
  | some written =>
      unfold Binder.resolveType at clean ⊢
      dsimp only at clean ⊢
      cases named : Ty.ofName? written.text with
      | some ty => exact ofName?_known named
      | none =>
          rw [named] at clean
          simp [Binder.report] at clean

/-- A declaration takes one number. -/
theorem Binder.ids_declare (b : Binder) (name : Syntax.Name) (mutable : Bool) (ty : Ty) :
    [(b.declare name mutable ty).1.id] =
      interval b.nextId (b.declare name mutable ty).2.nextId := by
  rw [b.declare_variable, b.declare_nextId, interval_succ (Nat.le_refl _), interval_self]
  rfl

/-- A checked operand has the type it is converted to. -/
theorem Binder.check_hasType {b : Binder} {τ : Nat → Ty} {Γ : List Nat} (fits : b.scope.Fits τ Γ)
    {e : Syntax.Expr} (whole : e.Whole) {ty : Ty} (known : ty ≠ .unknown)
    (clean : (resolveTo b.scope e ty).problems = []) :
    (b.check (resolveTo · e ty)).1.HasType τ Γ ty := by
  rw [Binder.check_value]
  exact resolveTo_hasType fits whole known clean

theorem bool_known : Ty.bool ≠ .unknown := by decide

theorem int_known : Ty.int ≠ .unknown := by decide

namespace WellBound

variable {b b' b'' : Binder}

/-- What is well bound after another binder with the same scope and counter is so before. -/
theorem of_same {s : Stmt} (bound : WellBound b s b'') (scope : b.scope = b'.scope)
    (nextId : b.nextId = b'.nextId) : WellBound b' s b'' where
  scope := by rw [← scope, bound.scope]
  ids := by rw [← nextId, bound.ids]
  le := nextId ▸ bound.le
  typed := scope ▸ bound.typed

theorem of_check {α : Type} {f : Scope → Checked α} {s : Stmt}
    (bound : WellBound (b.check f).2 s b') : WellBound b s b' :=
  bound.of_same rfl rfl

/-- Expressions that are checked after a statement change nothing. -/
theorem check {α : Type} {s : Stmt} (bound : WellBound b s b') (f : Scope → Checked α) :
    WellBound b s (b'.check f).2 :=
  ⟨bound.scope, bound.ids, bound.le, bound.typed⟩

/-- A statement around one block declares what the block does, and leaves nothing. -/
theorem around {s body : Stmt} (inner : WellBound b body b') (closed : body.leaves = [])
    (declared : s.declared = body.declared) (leaves : s.leaves = [])
    (typed : ∀ τ Γ, b.scope.Fits τ Γ → body.Typed τ Γ → s.Typed τ Γ) : WellBound b s b' where
  scope := by rw [inner.scope, closed, leaves]
  ids := by rw [declared, inner.ids]
  le := inner.le
  typed := by
    intro τ Γ fits tys
    rw [declared] at tys
    rw [leaves]
    exact ⟨typed τ Γ fits (inner.typed τ Γ fits tys).1, List.forall_mem_nil _⟩

theorem declare {name : Syntax.Name} {mutable : Bool} {ty : Ty} {init : Expr}
    (named : name.isMissing = false) (clean : (b.declare name mutable ty).2.problems = [])
    (typed : ∀ τ Γ, b.scope.Fits τ Γ → init.HasType τ Γ ty ∧ ty ≠ .unknown) :
    WellBound b (.declare (b.declare name mutable ty).1 init) (b.declare name mutable ty).2 where
  scope := (Binder.declare_clean named clean).1
  ids := Binder.ids_declare _ _ _ _
  le := (Binder.grows_declare _ _ _ _).nextId
  typed := by
    intro τ Γ fits tys
    obtain ⟨hasType, known⟩ := typed τ Γ fits
    refine ⟨⟨⟨hasType.1, hasType.2.trans (Binder.declare_ty _ _ _ _).symm⟩,
      tys _ List.mem_cons_self⟩, ?_⟩
    intro v member
    rw [List.mem_singleton.1 member, Binder.declare_ty]
    exact known

theorem ifElse {test : Expr} {yes no : Stmt} (first : WellBound b yes b')
    (second : WellBound b' no b'') (closedYes : yes.leaves = []) (closedNo : no.leaves = [])
    (tested : ∀ τ Γ, b.scope.Fits τ Γ → test.HasType τ Γ .bool) :
    WellBound b (.ifElse test yes no) b'' where
  scope := by
    rw [second.scope_eq closedNo, first.scope_eq closedYes]
    exact (Scope.extend_nil _).symm
  ids := by
    rw [Stmt.declared, List.map_append, first.ids, second.ids, interval_append first.le second.le]
  le := Nat.le_trans first.le second.le
  typed := by
    intro τ Γ fits tys
    obtain ⟨tysYes, tysNo⟩ := List.forall_mem_append.1 tys
    exact ⟨⟨tested τ Γ fits, first.typed_in rfl fits tysYes,
      second.typed_in (first.scope_eq closedYes) fits tysNo⟩, List.forall_mem_nil _⟩

/-- The variable of a loop is declared in a block of its own around the body. -/
theorem forTo {var : Syntax.Name} {mutable : Bool} {lower upper : Expr} {body : Stmt}
    (named : var.isMissing = false) (clean : (b.enter.declare var mutable .int).2.problems = [])
    (inner : WellBound (b.enter.declare var mutable .int).2 body b') (closed : body.leaves = [])
    (bounds : ∀ τ Γ, b.scope.Fits τ Γ → lower.HasType τ Γ .int ∧ upper.HasType τ Γ .int) :
    WellBound b (.forTo (b.enter.declare var mutable .int).1 lower upper body) b'.leave := by
  obtain ⟨scope, -, -⟩ := Binder.declare_clean named clean
  have before : b.nextId < b'.nextId := by
    have le := inner.le
    rw [Binder.declare_nextId] at le
    exact le
  refine ⟨?_, ?_, Nat.le_of_lt before, fun τ Γ fits tys => ⟨?_, List.forall_mem_nil _⟩⟩
  · show b'.scope.pop = b.scope.extend []
    rw [inner.scope_eq closed, scope, Scope.extend_nil]
    exact Scope.pop_push_extend _ _
  · rw [Stmt.declared, List.map_cons, inner.ids, Binder.declare_nextId, Binder.declare_variable]
    exact (interval_cons before).symm
  · obtain ⟨tyVar, tysBody⟩ := List.forall_mem_cons.1 tys
    obtain ⟨typedLower, typedUpper⟩ := bounds τ Γ fits
    refine ⟨typedLower, typedUpper, Binder.declare_ty _ _ _ _, tyVar, ?_⟩
    refine inner.typed_in scope (fits.push.extend (List.subset_cons_self _ _) ?_) tysBody
    intro v member
    rw [List.mem_singleton.1 member]
    refine ⟨List.mem_cons_self, tyVar, ?_⟩
    rw [Binder.declare_ty]
    exact int_known

end WellBound

/-- A first value is of the type of its variable. -/
theorem firstValue_hasType {ty : Option Syntax.Name} {init : Syntax.Expr} {b : Binder}
    (whole : init.Whole) (clean : (firstValue ty init b).2.problems = []) {τ : Nat → Ty}
    {Γ : List Nat} (fits : b.scope.Fits τ Γ) :
    (firstValue ty init b).1.2.HasType τ Γ (firstValue ty init b).1.1 ∧
      (firstValue ty init b).1.1 ≠ .unknown := by
  obtain ⟨cleanInit, cleanTy, converted⟩ := firstValue_clean clean
  have known := resolveValue_known fits whole cleanInit
  have tyKnown := declaredType_known known.2 cleanTy
  exact ⟨convertTo_hasType known tyKnown converted, tyKnown⟩

/-- A statement in which no name is missing and that binds without a problem is well bound. -/
theorem bindStmt_wellBound (s : Syntax.Stmt) (b : Binder) (whole : s.Whole)
    (clean : (bindStmt s b).2.problems = []) : WellBound b (bindStmt s b).1 (bindStmt s b).2 := by
  induction s using Syntax.Stmt.induction generalizing b with
  | block body ih =>
      rw [bindStmt] at clean ⊢
      exact bindBlock_wellBound ih b whole clean
  | var span name mutable ty init =>
      rw [bindStmt_var] at clean ⊢
      obtain ⟨named, -, wholeInit⟩ := whole
      have cleanFirst := (Binder.grows_declare _ _ _ _).clean clean
      refine WellBound.of_same ?_ (firstValue_scope ty init b) (firstValue_nextId ty init b)
      refine .declare named clean fun τ Γ fits => firstValue_hasType wholeInit cleanFirst ?_
      exact firstValue_scope ty init b ▸ fits
  | ifThen span test yes ih =>
      rw [bindStmt_ifThen] at clean ⊢
      have inner := bindBlock_wellBound ih _ whole.2 clean
      have cleanTest := Binder.check_clean ((grows_block yes _).clean clean)
      exact inner.of_check.around (leaves_bindBlock _ _) rfl rfl fun τ Γ fits typed =>
        ⟨Binder.check_hasType fits whole.1 bool_known cleanTest.2, typed⟩
  | ifElse span test yes no ihYes ihNo =>
      rw [bindStmt_ifElse] at clean ⊢
      have cleanFirst := (grows_block no _).clean clean
      have cleanTest := Binder.check_clean ((grows_block yes _).clean cleanFirst)
      have first := bindBlock_wellBound ihYes _ whole.2.1 cleanFirst
      have second := bindBlock_wellBound ihNo _ whole.2.2 clean
      exact first.of_check.ifElse second (leaves_bindBlock _ _) (leaves_bindBlock _ _)
        fun τ Γ fits => Binder.check_hasType fits whole.1 bool_known cleanTest.2
  | whileLoop span test body ih =>
      cases test with
      | none =>
          rw [bindStmt_whileLoop_none] at clean ⊢
          exact (bindBlock_wellBound ih _ whole.2 clean).around (leaves_bindBlock _ _) rfl rfl
            fun τ Γ fits typed => ⟨⟨trivial, rfl⟩, typed⟩
      | some test =>
          rw [bindStmt_whileLoop_some] at clean ⊢
          have inner := bindBlock_wellBound ih _ whole.2 clean
          have cleanTest := Binder.check_clean ((grows_block body _).clean clean)
          exact inner.of_check.around (leaves_bindBlock _ _) rfl rfl fun τ Γ fits typed =>
            ⟨Binder.check_hasType fits (whole.1 test rfl) bool_known cleanTest.2, typed⟩
  | doWhile span body test ih =>
      rw [bindStmt_doWhile] at clean ⊢
      dsimp only at clean ⊢
      obtain ⟨cleanBody, cleanTest⟩ := Binder.check_clean clean
      have inner := bindBlock_wellBound ih _ whole.1 cleanBody
      have scope := inner.scope_eq (leaves_bindBlock _ _)
      apply WellBound.check
      refine inner.around (leaves_bindBlock _ _) rfl rfl ?_
      intro τ Γ fits typed
      rw [← scope] at fits
      exact ⟨typed, Binder.check_hasType fits whole.2 bool_known cleanTest⟩
  | forTo span var mutable lower upper body ih =>
      rw [bindStmt_forTo] at clean ⊢
      obtain ⟨named, wholeLower, wholeUpper, wholeBody⟩ := whole
      have cleanVar := (grows_block body _).clean clean
      obtain ⟨cleanLower, cleanUpper⟩ := bounds_clean cleanVar
      have inner := bindBlock_wellBound ih _ wholeBody clean
      refine (WellBound.forTo named cleanVar inner (leaves_bindBlock _ _) ?_).of_check.of_check
      exact fun τ Γ fits => ⟨Binder.check_hasType fits wholeLower int_known cleanLower,
        Binder.check_hasType fits wholeUpper int_known cleanUpper⟩
  | expr e =>
      rw [bindStmt_expr] at clean ⊢
      dsimp only at clean
      obtain ⟨-, cleanExpr⟩ := Binder.check_clean clean
      refine ⟨(Scope.extend_nil _).symm, (interval_self _).symm, Nat.le_refl _,
        fun τ Γ fits tys => ⟨?_, List.forall_mem_nil _⟩⟩
      exact (resolve_known fits e whole cleanExpr).1

/-! ## Programs -/

/-- The binder before a program. -/
def Binder.atStart (earlier : List Submission) (nextId : Nat) : Binder :=
  ⟨(scopeAfter earlier).push, nextId, []⟩

/-- A program without diagnostics in which no name is missing is well bound, its top-level variables
are the ones its statements leave, and it leaves no jumps. -/
theorem bindProgram_wellBound {earlier : List Submission} {nextId : Nat} {source : Source}
    {program : Syntax.Program} (whole : Syntax.Stmt.WholeAll program.statements)
    (clean : (bindProgram earlier nextId source program).1.diagnostics = []) :
    ∃ body b', AllWellBound (.atStart earlier nextId) body b' ∧
      (bindProgram earlier nextId source program).1.statement = .block body ∧
      (bindProgram earlier nextId source program).1.vars = leavesOf body ∧
      (bindProgram earlier nextId source program).2 = b'.nextId := by
  have own := (List.append_eq_nil_iff.1 clean).1
  have bound := bindStmts_wellBound (fun s _ => bindStmt_wellBound s) (.atStart earlier nextId) whole
    (List.map_eq_nil_iff.1 own)
  refine ⟨_, _, bound, rfl, ?_, rfl⟩
  show (bindStmts program.statements (.atStart earlier nextId)).2.scope.declared = _
  rw [bound.scope]
  rfl

theorem bindProgram_le (earlier : List Submission) (nextId : Nat) (source : Source)
    (program : Syntax.Program) : nextId ≤ (bindProgram earlier nextId source program).2 :=
  (grows_all _ (Binder.atStart earlier nextId)).nextId

end Bound

end ScriptLang
