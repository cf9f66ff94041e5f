/-
# ScriptLang.Proofs.SafeCode -- programs in which types fit do not go wrong

On the machine, the code of a statement in which types fit takes every step
without going wrong until it comes to its end, where the variables that the
statement leaves have values too (`Stmt.code_safe`).  What is proved about all
steps of a run is proved for every number of steps (`SafeFor`), so it holds for
runs that never end as well.
-/
import ScriptLang.Proofs.MachineRun
import ScriptLang.Proofs.Soundness

namespace ScriptLang

set_option autoImplicit false

open ScriptLang.Bound (Stmt Expr Supply)

namespace Bound

/-- The expression that a statement of a flat program evaluates. -/
def Stmt.subject? : Stmt → Option Expr
  | .declare _ e | .expr e | .branch _ e _ => some e
  | _ => none

end Bound

/-! ## Steps -/

/-- Whether the next step of a machine goes well: every part of an expression that is evaluated
gives a value of its type, the step stops with a value or with a fault that can happen to every
program, and variables keep having values of their types. -/
structure Machine.GoesWell (τ : Nat → Ty) (image : Image) (m : Machine) : Prop where
  visits : ∀ s e part x, image.code[m.pc]? = some s → s.subject? = some e →
    e.Visits m.world part x → x.ty = part.ty
  fault : ∀ f w, m.step image = .stopped (.error f) w → f.Ordinary
  keeps : m.world.store.Keeps τ (m.step image).world.store

namespace Machine

variable {τ : Nat → Ty} {Γ : List Nat} {image : Image} {m : Machine}

theorem goesWell_of_moved {s : Stmt} (code : image.code[m.pc]? = some s)
    (plain : s.subject? = none) {pc : Nat} (step : m.step image = .running { m with pc := pc }) :
    m.GoesWell τ image where
  visits := by
    intro s' e part x code' subject
    rw [code] at code'
    cases code'
    rw [plain] at subject
    cases subject
  fault := by
    intro f w stopped
    rw [step] at stopped
    cases stopped
  keeps := by rw [step]; exact .refl _

/-- A statement that evaluates an expression in which types fit. -/
theorem visits_of_typed {s : Stmt} (code : image.code[m.pc]? = some s) {e : Expr}
    (subject : s.subject? = some e) (typed : e.Typed τ Γ) (fits : m.world.store.FitsAll τ Γ) :
    ∀ s e part x, image.code[m.pc]? = some s → s.subject? = some e →
      e.Visits m.world part x → x.ty = part.ty := by
  intro s' e' part x code' subject' visits
  rw [code] at code'
  cases code'
  rw [subject] at subject'
  cases subject'
  exact visits.ty_eq typed fits

theorem goesWell_of_settled {s : Stmt} (code : image.code[m.pc]? = some s) {e : Expr}
    (subject : s.subject? = some e) (typed : e.Typed τ Γ) (fits : m.world.store.FitsAll τ Γ)
    {o : Outcome Value} (step : m.step image = m.settled o) {Q : Value → Prop}
    (sound : o.Sound τ m.world.store Q) : m.GoesWell τ image where
  visits := visits_of_typed code subject typed fits
  fault := by
    intro f w stopped
    rw [step] at stopped
    match o, sound with
    | (.ok x, w'), sound => cases stopped
    | (.error g, w'), sound =>
        cases stopped
        exact sound.fault f rfl
  keeps := by
    rw [step, settled_world]
    exact sound.keeps

end Machine

namespace Bound

variable {τ : Nat → Ty} {Γ : List Nat}

theorem Expr.declareAs_sound {e : Expr} {v : Variable} (typed : e.HasType τ Γ v.ty)
    (tyVar : v.ty = τ v.id) {w : World} (fits : w.store.FitsAll τ Γ) :
    (e.declareAs v w).Sound τ w.store fun x => x.ty = v.ty := by
  apply (e.eval_sound typed.1 w fits).andThen
  intro x w _ ty
  have right : x.ty = v.ty := ty.trans typed.2
  exact { keeps := Store.keeps_upsert (right.trans tyVar), value := by rintro y ⟨⟩; exact right,
          fault := by rintro f ⟨⟩ }

/-- After a declaration the variable has a value. -/
theorem Expr.declareAs_fits {e : Expr} {v : Variable} (typed : e.HasType τ Γ v.ty)
    (tyVar : v.ty = τ v.id) {w w' : World} (fits : w.store.FitsAll τ Γ) {x : Value}
    (gives : e.declareAs v w = (.ok x, w')) : w'.store.FitsAll τ (v.id :: Γ) := by
  have sound := Expr.declareAs_sound typed tyVar fits
  rw [gives] at sound
  have right : x.ty = τ v.id := (sound.value x rfl).trans tyVar
  have here : w'.store.Fits τ v.id := by
    unfold Expr.declareAs at gives
    match e.eval w, gives with
    | (.ok y, u), gives =>
        cases gives
        exact Store.fits_upsert right
    | (.error f, u), gives => cases gives
  intro id member
  rcases List.mem_cons.1 member with rfl | member
  · exact here
  · exact sound.keeps.fitsAll fits id member

theorem Expr.test_sound {e : Expr} (typed : e.HasType τ Γ .bool) {w : World}
    (fits : w.store.FitsAll τ Γ) : (e.test w).Sound τ w.store fun _ => True := by
  apply (e.eval_sound typed.1 w fits).andThen
  intro x w _ ty
  obtain ⟨b, rfl⟩ := Value.exists_bool (ty.trans typed.2)
  exact .ok trivial

end Bound

/-! ## Code -/

/-- Whether a machine runs statements for a number of steps that all go well, unless it comes to the
exit before, where some variables have values of their types. -/
def SafeFor (τ : Nat → Ty) (image : Image) (exit : Nat) (Γ : List Nat) : Nat → Machine → Prop
  | 0, _ => True
  | n + 1, m =>
      (m.pc = exit ∧ m.world.store.FitsAll τ Γ) ∨
        (m.GoesWell τ image ∧ (∃ s, image.code[m.pc]? = some s) ∧
          ∀ next, m.step image = .running next → SafeFor τ image exit Γ n next)

namespace SafeFor

variable {τ : Nat → Ty} {image : Image} {exit mid n : Nat} {Γ Δ : List Nat} {m : Machine}

theorem arrived (there : m.pc = exit) (fits : m.world.store.FitsAll τ Γ) :
    SafeFor τ image exit Γ n m := by
  cases n with
  | zero => trivial
  | succ n => exact .inl ⟨there, fits⟩

theorem step {s : Stmt} (code : image.code[m.pc]? = some s) (well : m.GoesWell τ image)
    (rest : ∀ next, m.step image = .running next → SafeFor τ image exit Γ n next) :
    SafeFor τ image exit Γ (n + 1) m :=
  .inr ⟨well, ⟨s, code⟩, rest⟩

theorem less (safe : SafeFor τ image exit Γ (n + 1) m) : SafeFor τ image exit Γ n m := by
  induction n generalizing m with
  | zero => trivial
  | succ n ih =>
      rcases safe with done | ⟨well, code, next⟩
      · exact .inl done
      · exact .inr ⟨well, code, fun m' step => ih (next m' step)⟩

theorem weaken (safe : SafeFor τ image exit Γ n m) (sub : Δ ⊆ Γ) : SafeFor τ image exit Δ n m := by
  induction n generalizing m with
  | zero => trivial
  | succ n ih =>
      rcases safe with ⟨there, fits⟩ | ⟨well, code, next⟩
      · exact .inl ⟨there, fun id member => fits id (sub member)⟩
      · exact .inr ⟨well, code, fun m' step => ih (next m' step)⟩

/-- One piece of code after another. -/
theorem followedBy (first : SafeFor τ image mid Γ n m)
    (second : ∀ m', m'.pc = mid → m'.world.store.FitsAll τ Γ → SafeFor τ image exit Δ n m') :
    SafeFor τ image exit Δ n m := by
  induction n generalizing m with
  | zero => trivial
  | succ n ih =>
      rcases first with ⟨there, fits⟩ | ⟨well, code, next⟩
      · exact second m there fits
      · refine .inr ⟨well, code, fun m' step => ih (next m' step) ?_⟩
        intro m' there fits
        exact (second m' there fits).less

/-- A label or a jump. -/
theorem moved {s : Stmt} (code : image.code[m.pc]? = some s) (plain : s.subject? = none) {pc : Nat}
    (step : m.step image = .running { m with pc := pc })
    (rest : SafeFor τ image exit Γ n { m with pc := pc }) : SafeFor τ image exit Γ n m := by
  refine less (.step code (Machine.goesWell_of_moved code plain step) ?_)
  intro m' step'
  rw [step] at step'
  cases step'
  exact rest

/-- A declaration. -/
theorem declare {v : Variable} {init : Expr} (code : image.code[m.pc]? = some (.declare v init))
    (typed : init.HasType τ Γ v.ty) (tyVar : v.ty = τ v.id) (fits : m.world.store.FitsAll τ Γ)
    (rest : ∀ m', m'.pc = m.pc + 1 → m'.world.store.FitsAll τ (v.id :: Γ) →
      SafeFor τ image exit Δ n m') : SafeFor τ image exit Δ n m := by
  have step := Machine.step_of_code code
  rw [Machine.execute_declare] at step
  have well : m.GoesWell τ image :=
    Machine.goesWell_of_settled code rfl typed.1 fits step (Expr.declareAs_sound typed tyVar fits)
  refine less (.step code well ?_)
  intro m' running
  rw [step] at running
  match gives : init.declareAs v m.world, running with
  | (.ok x, w), running =>
      cases running
      exact rest _ rfl (Expr.declareAs_fits typed tyVar fits gives)
  | (.error f, w), running => cases running

/-- An expression statement. -/
theorem expr {e : Expr} (code : image.code[m.pc]? = some (.expr e)) (typed : e.Typed τ Γ)
    (fits : m.world.store.FitsAll τ Γ)
    (rest : ∀ m', m'.pc = m.pc + 1 → m'.world.store.FitsAll τ Γ → SafeFor τ image exit Δ n m') :
    SafeFor τ image exit Δ n m := by
  have step := Machine.step_of_code code
  rw [Machine.execute_expr] at step
  have sound := e.eval_sound typed m.world fits
  have well : m.GoesWell τ image := Machine.goesWell_of_settled code rfl typed fits step sound
  refine less (.step code well ?_)
  intro m' running
  rw [step] at running
  match e.eval m.world, running, sound with
  | (.ok x, w), running, sound =>
      cases running
      exact rest _ rfl (sound.keeps.fitsAll fits)
  | (.error f, w), running, sound => cases running

/-- A test, and one of two ways to go on.  The step is counted, so that a loop comes to an end. -/
theorem branch {target : Label} {test : Expr} {when : Bool} {index : Nat}
    (code : image.code[m.pc]? = some (.branch target test when))
    (found : image.target? target = some index) (typed : test.HasType τ Γ .bool)
    (fits : m.world.store.FitsAll τ Γ)
    (rest : ∀ m', m'.pc = index ∨ m'.pc = m.pc + 1 → m'.world.store.FitsAll τ Γ →
      SafeFor τ image exit Δ n m') : SafeFor τ image exit Δ (n + 1) m := by
  have step := Machine.step_of_code code
  rw [Machine.execute_branch m found] at step
  have sound := Expr.test_sound typed fits
  match test.test m.world, step, sound with
  | (.ok b, w), step, sound =>
      refine .step code ⟨Machine.visits_of_typed code rfl typed.1 fits, ?_, ?_⟩ ?_
      · intro f w' stopped
        rw [step] at stopped
        cases stopped
      · rw [step]
        exact sound.keeps
      · intro m' running
        rw [step] at running
        cases running
        refine rest _ ?_ (sound.keeps.fitsAll fits)
        by_cases same : b = when
        · exact .inl (if_pos same)
        · exact .inr (if_neg same)
  | (.error f, w), step, sound =>
      refine .step code ⟨Machine.visits_of_typed code rfl typed.1 fits, ?_, ?_⟩ ?_
      · intro f' w' stopped
        rw [step] at stopped
        cases stopped
        exact sound.fault _ rfl
      · rw [step]
        exact sound.keeps
      · intro m' running
        rw [step] at running
        cases running

/-- A label after a piece of code. -/
theorem thenLabel {here : Label} (first : SafeFor τ image mid Γ n m)
    (code : image.code[mid]? = some (.label here)) : SafeFor τ image (mid + 1) Γ n m := by
  apply first.followedBy
  intro m' there fits
  subst there
  exact moved code rfl (Machine.step_label code) (arrived rfl fits)

/-- The check at the end of a loop, if the body leads back to it. -/
theorem check {start check label : Nat} {test : Expr}
    (code : image.code[check]? = some (.branch ⟨label⟩ test true))
    (found : image.target? ⟨label⟩ = some start) (typed : test.HasType τ Γ .bool)
    (body : ∀ n m, m.pc = start → m.world.store.FitsAll τ Γ → SafeFor τ image check Γ n m)
    (there : m.pc = check) (fits : m.world.store.FitsAll τ Γ) :
    SafeFor τ image (check + 1) Γ n m := by
  induction n generalizing m with
  | zero => trivial
  | succ n ih =>
      subst there
      apply branch code found typed fits
      intro m' there' fits'
      rcases there' with again | done
      · exact (body n m' again fits').followedBy fun m'' there'' fits'' => ih there'' fits''
      · exact arrived done fits'

/-- A loop that tests before each round. -/
theorem loop {pos label : Nat} {test : Expr} {inner : List Stmt}
    (here : image.Holds pos (Bound.loopCode label test inner)) (typed : test.HasType τ Γ .bool)
    (body : image.Holds (pos + 2) inner → ∀ n m, m.pc = pos + 2 → m.world.store.FitsAll τ Γ →
      SafeFor τ image (pos + 2 + inner.length) Γ n m)
    (there : m.pc = pos) (fits : m.world.store.FitsAll τ Γ) :
    SafeFor τ image (pos + (Bound.loopCode label test inner).length) Γ n m := by
  have parts := here.whileAt
  have round : ∀ n m, m.pc = pos + 2 → m.world.store.FitsAll τ Γ →
      SafeFor τ image (pos + 2 + inner.length + 1) Γ n m :=
    fun n m there fits => (body parts.body n m there fits).thenLabel parts.check
  subst there
  rw [parts.exit_eq]
  refine moved parts.enter rfl (Machine.step_goto parts.enter parts.toBranch) ?_
  exact thenLabel (check parts.branch parts.toBody typed round rfl fits) parts.done

end SafeFor

namespace Bound

variable {τ : Nat → Ty} {image : Image}

/-- Whether the hidden variables of an interval are integers. -/
def HiddenInts (τ : Nat → Ty) (first after : Nat) : Prop := ∀ id, first ≤ id → id < after → τ id = .int

theorem HiddenInts.mono {first after first' after' : Nat} (h : HiddenInts τ first after)
    (below : first ≤ first') (above : after' ≤ after) : HiddenInts τ first' after' := by
  intro id low high
  exact h id (by omega) (by omega)

/-- Whether the code of a statement is safe wherever it stands. -/
def Stmt.CodeSafe (τ : Nat → Ty) (image : Image) (Γ : List Nat) (s : Stmt) : Prop :=
  ∀ {supply : Supply}, HiddenInts τ supply.id (s.supplyAfter supply).id →
    ∀ {pos : Nat}, image.Holds pos (s.code supply) → ∀ n m, m.pc = pos →
      m.world.store.FitsAll τ Γ →
      SafeFor τ image (pos + (s.code supply).length) (s.leaves.map (·.id) ++ Γ) n m

theorem codeAll_safe {body : List Stmt}
    (each : ∀ s ∈ body, ∀ Γ, s.Typed τ Γ → s.CodeSafe τ image Γ) {Γ : List Nat}
    (typed : Stmt.TypedAll τ Γ body) {supply : Supply}
    (hidden : HiddenInts τ supply.id (supplyAfterAll body supply).id) {pos : Nat}
    (here : image.Holds pos (codeAll body supply)) (n : Nat) (m : Machine) (there : m.pc = pos)
    (fits : m.world.store.FitsAll τ Γ) :
    SafeFor τ image (pos + (codeAll body supply).length) ((leavesOf body).map (·.id) ++ Γ) n m := by
  induction body generalizing Γ supply pos m with
  | nil =>
      rw [codeAll_nil]
      exact .arrived there fits
  | cons s ss ih =>
      rw [codeAll_cons] at here
      rw [supplyAfterAll_cons] at hidden
      obtain ⟨first, rest⟩ := Image.holds_append.1 here
      have le := (s.supply_le supply).2
      have limits : (s.supplyAfter supply).id ≤ (supplyAfterAll ss (s.supplyAfter supply)).id :=
        (supply_le_all (fun s _ => s.supply_le) _).2
      rw [codeAll_cons, List.length_append, ← Nat.add_assoc]
      have one := each s List.mem_cons_self Γ typed.1 (hidden.mono (Nat.le_refl _) limits) first n m
        there fits
      apply one.followedBy
      intro m' there' fits'
      have more := ih (fun s member => each s (List.mem_cons_of_mem _ member)) typed.2
        (hidden.mono le (Nat.le_refl _)) rest m' there' fits'
      exact more.weaken (leavesOf_cons_subset s ss Γ)

theorem belowBound_hasType {Γ : List Nat} {v bound : Variable} (member : v.id ∈ Γ)
    (tyVar : v.ty = .int) (fitsVar : v.ty = τ v.id) (memberBound : bound.id ∈ Γ)
    (tyBound : bound.ty = .int) (fitsBound : bound.ty = τ bound.id) :
    (belowBound v bound).HasType τ Γ .bool := by
  refine ⟨⟨⟨member, fitsVar⟩, ⟨memberBound, fitsBound⟩, ?_⟩, rfl⟩
  show BinaryRule.find? .lt v.ty bound.ty = _
  rw [tyVar, tyBound]
  rfl

theorem increment_typed {Γ : List Nat} {v : Variable} (member : v.id ∈ Γ) (tyVar : v.ty = .int)
    (fitsVar : v.ty = τ v.id) : (increment v).Typed τ Γ := by
  refine ⟨member, fitsVar, ⟨⟨member, fitsVar⟩, trivial, ?_⟩, tyVar.symm⟩
  show BinaryRule.find? .add v.ty .int = _
  rw [tyVar]
  rfl

namespace Stmt.CodeSafe

variable {Γ : List Nat} {test : Expr} {body : Stmt}

theorem block {body : List Stmt} (each : ∀ s ∈ body, ∀ Γ, s.Typed τ Γ → s.CodeSafe τ image Γ)
    (typed : Stmt.TypedAll τ Γ body) : (Stmt.block body).CodeSafe τ image Γ := by
  intro supply hidden pos here n m there fits
  rw [code_block] at here ⊢
  rw [supplyAfter_block] at hidden
  exact (codeAll_safe each typed hidden here n m there fits).weaken (List.subset_append_right _ _)

theorem declare {v : Variable} {init : Expr} (typed : init.HasType τ Γ v.ty) (tyVar : v.ty = τ v.id) :
    (Stmt.declare v init).CodeSafe τ image Γ := by
  intro supply hidden pos here n m there fits
  rw [code_declare] at here ⊢
  subst there
  exact .declare here.1 typed tyVar fits fun m' there' fits' => .arrived there' fits'

theorem expr {e : Expr} (typed : e.Typed τ Γ) : (Stmt.expr e).CodeSafe τ image Γ := by
  intro supply hidden pos here n m there fits
  rw [code_expr] at here ⊢
  subst there
  exact .expr here.1 typed fits fun m' there' fits' => .arrived there' fits'

/-- Code that is safe leaves the variables there that were there. -/
theorem keeping {s : Stmt} (safe : s.CodeSafe τ image Γ) {supply : Supply}
    (hidden : HiddenInts τ supply.id (s.supplyAfter supply).id) {pos : Nat}
    (here : image.Holds pos (s.code supply)) (n : Nat) (m : Machine) (there : m.pc = pos)
    (fits : m.world.store.FitsAll τ Γ) :
    SafeFor τ image (pos + (s.code supply).length) Γ n m :=
  (safe hidden here n m there fits).weaken (List.subset_append_right _ _)

theorem ifThen (typed : test.HasType τ Γ .bool) {yes : Stmt} (safe : yes.CodeSafe τ image Γ) :
    (Stmt.ifThen test yes).CodeSafe τ image Γ := by
  intro supply hidden pos here n m there fits
  rw [supplyAfter_ifThen] at hidden
  have parts := here.ifThenAt
  subst there
  refine SafeFor.less (.branch parts.branch parts.toDone typed fits ?_)
  intro m' there' fits'
  rcases there' with skipped | entered
  · exact .arrived skipped fits'
  · rw [parts.exit_eq]
    exact (safe.keeping hidden parts.yes n m' entered fits').thenLabel parts.done

theorem ifElse (typed : test.HasType τ Γ .bool) {yes no : Stmt} (safeYes : yes.CodeSafe τ image Γ)
    (safeNo : no.CodeSafe τ image Γ) : (Stmt.ifElse test yes no).CodeSafe τ image Γ := by
  intro supply hidden pos here n m there fits
  rw [supplyAfter_ifElse] at hidden
  have parts := here.ifElseAt
  have first := (yes.supply_le supply).2
  have second := (no.supply_le (yes.supplyAfter supply)).2
  subst there
  refine SafeFor.less (.branch parts.branch parts.toNo typed fits ?_)
  intro m' there' fits'
  rcases there' with skipped | entered
  · rw [parts.exit_eq]
    have inner := safeNo.keeping (hidden.mono first (Nat.le_refl _)) parts.no n m' skipped fits'
    exact inner.thenLabel parts.done
  · apply (safeYes.keeping (hidden.mono (Nat.le_refl _) second) parts.yes n m' entered
      fits').followedBy
    intro m'' there'' fits''
    have code : image.code[m''.pc]? = some (.goto _) := there'' ▸ parts.skip
    exact .moved code rfl (Machine.step_goto code parts.toDone) (.arrived rfl fits'')

theorem whileLoop (typed : test.HasType τ Γ .bool) (safe : body.CodeSafe τ image Γ) :
    (Stmt.whileLoop test body).CodeSafe τ image Γ := by
  intro supply hidden pos here n m there fits
  rw [code_whileLoop] at here ⊢
  rw [supplyAfter_whileLoop] at hidden
  refine SafeFor.loop here typed ?_ there fits
  exact fun bodyHere => safe.keeping hidden bodyHere

theorem doWhile (typed : test.HasType τ Γ .bool) (safe : body.CodeSafe τ image Γ) :
    (Stmt.doWhile body test).CodeSafe τ image Γ := by
  intro supply hidden pos here n m there fits
  rw [supplyAfter_doWhile] at hidden
  have parts := here.doWhileAt
  have round := safe.keeping hidden parts.body
  subst there
  rw [parts.exit_eq]
  refine .moved parts.enter rfl (Machine.step_label parts.enter) ?_
  apply (round n { m with pc := m.pc + 1 } rfl fits).followedBy
  intro m' there' fits'
  exact .check parts.branch parts.toBody typed round there' fits'

/-- The body is safe where the variable and the hidden variable, with any number, are there. -/
theorem forTo {v : Variable} (tyVar : v.ty = .int) (fitsVar : v.ty = τ v.id) {lower upper : Expr}
    (typedLower : lower.HasType τ Γ .int) (typedUpper : upper.HasType τ Γ .int)
    (safe : ∀ hidden, body.CodeSafe τ image (hidden :: v.id :: Γ)) :
    (Stmt.forTo v lower upper body).CodeSafe τ image Γ := by
  intro supply hidden pos here n m there fits
  rw [code_forTo] at here ⊢
  rw [supplyAfter_forTo] at hidden
  obtain ⟨lowerCode, -, boundCode, -, loopHere⟩ := here
  have le := (body.supply_le supply).2
  have fitsBound : (boundVariable (body.supplyAfter supply).id).ty =
      τ (body.supplyAfter supply).id := (hidden _ le (Nat.lt_succ_self _)).symm
  rw [List.length_cons, List.length_cons,
    show ∀ k, pos + (k + 1 + 1) = pos + 1 + 1 + k by omega]
  subst there
  refine .declare lowerCode ⟨typedLower.1, typedLower.2.trans tyVar.symm⟩ fitsVar fits ?_
  intro m₁ there₁ fits₁
  rw [← there₁] at boundCode loopHere ⊢
  refine .declare boundCode ⟨typedUpper.1.weaken (List.subset_cons_self _ _), typedUpper.2⟩
    fitsBound fits₁ ?_
  intro m₂ there₂ fits₂
  have memberVar : v.id ∈ (body.supplyAfter supply).id :: v.id :: Γ :=
    List.mem_cons_of_mem _ List.mem_cons_self
  have test := belowBound_hasType memberVar tyVar fitsVar List.mem_cons_self rfl fitsBound
  refine SafeFor.weaken (SafeFor.loop loopHere test ?_ there₂ fits₂)
    fun id member => List.mem_cons_of_mem _ (List.mem_cons_of_mem _ member)
  intro roundHere n m there fits
  obtain ⟨bodyHere, stepCode, -⟩ := Image.holds_append.1 roundHere
  rw [List.length_append, List.length_singleton, ← Nat.add_assoc]
  have inner := keeping (safe _) (hidden.mono (Nat.le_refl _) (Nat.le_succ _)) bodyHere n m there fits
  apply inner.followedBy
  intro m' there' fits'
  rw [← there'] at stepCode ⊢
  exact .expr stepCode (increment_typed memberVar tyVar fitsVar) fits' fun _ => .arrived

end Stmt.CodeSafe

/-- The code of a statement in which types fit is safe. -/
theorem Stmt.code_safe (s : Stmt) (Γ : List Nat) (typed : s.Typed τ Γ) : s.CodeSafe τ image Γ := by
  induction s using Stmt.induction generalizing Γ with
  | block body ih => exact CodeSafe.block ih typed
  | declare v init => exact CodeSafe.declare typed.1 typed.2
  | expr e => exact CodeSafe.expr typed
  | ifThen test yes ih => exact CodeSafe.ifThen typed.1 (ih Γ typed.2)
  | ifElse test yes no ihYes ihNo =>
      exact CodeSafe.ifElse typed.1 (ihYes Γ typed.2.1) (ihNo Γ typed.2.2)
  | whileLoop test body ih => exact CodeSafe.whileLoop typed.1 (ih Γ typed.2)
  | doWhile body test ih => exact CodeSafe.doWhile typed.2 (ih Γ typed.1)
  | forTo v lower upper body ih =>
      obtain ⟨typedLower, typedUpper, tyVar, fitsVar, typedBody⟩ := typed
      refine CodeSafe.forTo tyVar fitsVar typedLower typedUpper fun hidden => ih _ ?_
      exact Stmt.Typed.weaken _ _ (List.subset_cons_self _ _) typedBody
  | goto target => exact typed.elim
  | branch target test when => exact typed.elim
  | label here => exact typed.elim

/-- A statement in which types fit has no jumps. -/
theorem Stmt.Typed.isStructured {s : Stmt} {Γ : List Nat} (typed : s.Typed τ Γ) :
    s.isStructured = true := by
  induction s using Stmt.induction generalizing Γ with
  | block body ih =>
      rw [Stmt.isStructured, Stmt.areStructured_iff]
      rw [Stmt.Typed] at typed
      induction body generalizing Γ with
      | nil => intro s member; cases member
      | cons s ss ihs =>
          intro s' member
          rcases List.mem_cons.1 member with rfl | member
          · exact ih s' List.mem_cons_self typed.1
          · exact ihs (fun s member => ih s (List.mem_cons_of_mem _ member)) typed.2 s' member
  | ifThen test yes ih => exact ih typed.2
  | ifElse test yes no ihYes ihNo =>
      rw [Stmt.isStructured, ihYes typed.2.1, ihNo typed.2.2]
      rfl
  | whileLoop test body ih => exact ih typed.2
  | doWhile body test ih => exact ih typed.1
  | forTo v lower upper body ih => exact ih typed.2.2.2.2
  | declare v init => rfl
  | expr e => rfl
  | goto target => exact typed.elim
  | branch target test when => exact typed.elim
  | label here => exact typed.elim

end Bound

/-! ## Runs -/

/-- A statement never stops a run with a value; only the end of the program does. -/
theorem Machine.execute_stopped {image : Image} {m : Machine} {s : Stmt}
    {result : Except Fault Value} {w : World} (h : m.execute image s = .stopped result w) :
    ∃ f, result = .error f := by
  cases s with
  | declare v init =>
      rw [Machine.execute_declare] at h
      match init.declareAs v m.world, h with
      | (.ok x, w'), h => cases h
      | (.error f, w'), h => cases h; exact ⟨f, rfl⟩
  | expr e =>
      rw [Machine.execute_expr] at h
      match e.eval m.world, h with
      | (.ok x, w'), h => cases h
      | (.error f, w'), h => cases h; exact ⟨f, rfl⟩
  | goto target =>
      simp only [Machine.execute, Machine.jump] at h
      split at h <;> cases h
      exact ⟨_, rfl⟩
  | branch target test when =>
      simp only [Machine.execute, Machine.jump] at h
      split at h
      · split at h
        · split at h <;> cases h
          exact ⟨_, rfl⟩
        · cases h
      · cases h; exact ⟨_, rfl⟩
      · cases h; exact ⟨_, rfl⟩
  | label here => cases h
  | _ => cases h; exact ⟨_, rfl⟩

/-- What holds at every machine that a safe run comes to. -/
theorem SafeFor.of_reaches {τ : Nat → Ty} {image : Image} {exit : Nat} {Γ : List Nat} {k : Nat}
    {m m' : Machine} (past : image.code[exit]? = none)
    (safe : ∀ n, SafeFor τ image exit Γ n m) (reach : m.Reaches image k m') :
    ∀ n, SafeFor τ image exit Γ n m' := by
  induction reach with
  | here m => exact safe
  | step first rest ih =>
      apply ih
      intro n
      rcases safe (n + 1) with ⟨there, -⟩ | ⟨-, -, next⟩
      · rw [Machine.step, there, past] at first
        cases first
      · exact next _ first

/-- Every machine that a safe run comes to goes well, at the exit too. -/
theorem SafeFor.goesWell {τ : Nat → Ty} {image : Image} {exit : Nat} {Γ : List Nat} {m : Machine}
    (past : image.code[exit]? = none) (safe : ∀ n, SafeFor τ image exit Γ n m) :
    m.GoesWell τ image := by
  rcases safe 1 with ⟨there, -⟩ | ⟨well, -⟩
  · have code : image.code[m.pc]? = none := by rw [there]; exact past
    have step : m.step image = .stopped (.ok m.last) m.world := by rw [Machine.step, code]
    refine ⟨?_, ?_, ?_⟩
    · intro s e part x code'
      rw [code] at code'
      cases code'
    · intro f w stopped
      rw [step] at stopped
      cases stopped
    · rw [step]
      exact .refl _
  · exact well

/-- A safe run that stops with a value is at the exit. -/
theorem SafeFor.fits_of_value {τ : Nat → Ty} {image : Image} {exit : Nat} {Γ : List Nat}
    {m : Machine} (safe : ∀ n, SafeFor τ image exit Γ n m) {x : Value} {w : World}
    (stops : m.step image = .stopped (.ok x) w) : w.store.FitsAll τ Γ := by
  rcases safe 1 with ⟨there, fits⟩ | ⟨-, ⟨s, code⟩, -⟩
  · rw [Machine.step] at stops
    cases code : image.code[m.pc]? with
    | none =>
        rw [code] at stops
        cases stops
        exact fits
    | some s =>
        rw [code] at stops
        obtain ⟨f, same⟩ := Machine.execute_stopped stops
        cases same
  · rw [Machine.step_of_code code] at stops
    obtain ⟨f, same⟩ := Machine.execute_stopped stops
    cases same

theorem Machine.keeps_of_reaches {τ : Nat → Ty} {image : Image} {k : Nat} {m m' : Machine}
    (reach : m.Reaches image k m')
    (well : ∀ k m', m.Reaches image k m' → m'.GoesWell τ image) :
    m.world.store.Keeps τ m'.world.store := by
  induction reach with
  | here m => exact .refl _
  | step first rest ih =>
      have one := (well 0 _ (.here _)).keeps
      rw [first] at one
      exact one.trans (ih fun k m' reach => well (k + 1) m' (.step first reach))

namespace Bound

/-- A program in which types fit: its statements, the variables that have values before it, and the
numbers of its hidden variables. -/
structure TypedProgram (τ : Nat → Ty) (Γ : List Nat) (body : List Stmt) (nextId : Nat) : Prop where
  typed : Stmt.TypedAll τ Γ body
  hidden : HiddenInts τ nextId (lower (.block body) nextId).nextId

variable {τ : Nat → Ty} {Γ : List Nat} {body : List Stmt} {nextId : Nat} {w : World}

theorem TypedProgram.safe (program : TypedProgram τ Γ body nextId) (fits : w.store.FitsAll τ Γ)
    (n : Nat) :
    SafeFor τ (.load (lower (.block body) nextId).program)
      (lower (.block body) nextId).program.length ((leavesOf body).map (·.id) ++ Γ) n (.start w) := by
  have structured : (Stmt.block body).isStructured = true :=
    Stmt.Typed.isStructured (τ := τ) (Γ := Γ) program.typed
  have held := Image.holds_load (labelIds_lower_nodup _ structured nextId)
  have hidden := program.hidden
  rw [lower_nextId, supplyAfter_block] at hidden
  rw [lower_program, code_block] at held ⊢
  have safe := codeAll_safe (fun s _ => s.code_safe) program.typed hidden held n (.start w) rfl fits
  rwa [Nat.zero_add] at safe

theorem past_end (program : List Stmt) : (Image.load program).code[program.length]? = none := by
  simp [Image.load]

/-- Every step of a program in which types fit goes well. -/
theorem TypedProgram.goesWell (program : TypedProgram τ Γ body nextId)
    (fits : w.store.FitsAll τ Γ) {k : Nat} {m : Machine}
    (reach : (Machine.start w).Reaches (.load (lower (.block body) nextId).program) k m) :
    m.GoesWell τ (.load (lower (.block body) nextId).program) :=
  SafeFor.goesWell (past_end _) (SafeFor.of_reaches (past_end _) (program.safe fits) reach)

/-- A program in which types fit stops with a value or with a fault that can happen to every
program; the variables it started with have values of their types, and after a value the ones it
leaves have too. -/
theorem TypedProgram.result (program : TypedProgram τ Γ body nextId) (fits : w.store.FitsAll τ Γ)
    {fuel : Nat} {o : Outcome Value}
    (ended : runProgram fuel (lower (.block body) nextId).program w = some o) :
    o.2.store.FitsAll τ Γ ∧ (∀ f, o.1 = .error f → f.Ordinary) ∧
      ∀ x, o.1 = .ok x → o.2.store.FitsAll τ ((leavesOf body).map (·.id)) := by
  obtain ⟨k, m, reach, stops⟩ := Machine.exists_stop ended
  have well := program.goesWell fits reach
  have keeps : w.store.Keeps τ o.2.store := by
    have first := Machine.keeps_of_reaches reach fun _ _ reach => program.goesWell fits reach
    have second := well.keeps
    rw [stops] at second
    exact first.trans second
  refine ⟨keeps.fitsAll fits, ?_, ?_⟩
  · intro f same
    rw [same] at stops
    exact well.fault f _ stops
  · intro x same
    rw [same] at stops
    have safe := SafeFor.of_reaches (past_end _) (program.safe fits) reach
    have all := SafeFor.fits_of_value safe stops
    exact fun id member => all id (List.mem_append.2 (.inl member))

end Bound

end ScriptLang
