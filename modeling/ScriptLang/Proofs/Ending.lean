/-
# ScriptLang.Proofs.Ending -- programs without open loops end

A `while`, a `do` and a `for mut` may run forever.  Every other loop is a `for` over
a variable that its body neither assigns to nor declares, since the variable is not
`mut` and has a number of its own.  Such a loop ends: the variable comes closer to
the bound with every round, and there the step to the next integer does not wrap
around (`forTo_ends`).  By induction on the nesting every statement with only such
loops ends, with a value or a fault (`Stmt.interpret_ends`).

A session may have let programs join that failed or that never ran
(`Session.Grown`).  Their variables may have no values, but they have no values of
other types (`Session.Regular`), which is all that is needed of the bounds of loops
(`Session.submit_ends`).
-/
import ScriptLang.Proofs.Framing
import ScriptLang.Proofs.Respecting

namespace ScriptLang

set_option autoImplicit false

/-! ## Loop variables -/

/-- The step to the next integer does not wrap around below another one. -/
theorem toInt_add_one {x b : Int64} (lt : x < b) : (x + 1).toInt = x.toInt + 1 := by
  have below := Int64.lt_iff_toInt_lt.1 lt
  have high := b.toInt_lt
  have low := x.le_toInt
  rw [Int64.toInt_add, show (1 : Int64).toInt = 1 from rfl]
  exact Int.bmod_eq_of_le (by omega) (by omega)

namespace Bound

section

variable {v : Variable} {w : World} {x : Int64} (stored : w.store.get? v.id = some (.int x))

include stored

theorem test_belowValue (b : Int64) :
    (belowValue v (.int b)).test w = (.ok (decide (x < b)), w) := by
  simp only [Expr.test, belowValue, Expr.eval, stored]
  rfl

theorem eval_increment : ∃ t, w.store.assign? v.id (.int (x + 1)) = some t ∧
    (increment v).eval w = (.ok (.int (x + 1)), { w with store := t }) := by
  cases assigned : w.store.assign? v.id (.int (x + 1)) with
  | none =>
      rw [Store.assign?_eq_none_iff.1 assigned] at stored
      cases stored
  | some t =>
      refine ⟨t, rfl, ?_⟩
      simp only [increment, Expr.eval, stored, Outcome.andThen, Operation.binary, Operation.onInts,
        assigned]

end

/-! ## Runs that end -/

/-- Whether a run ends in some number of rounds. -/
def Ends (run : Nat → Option (Outcome Value)) : Prop := ∃ rounds o, run rounds = some o

/-- Whether a run keeps its result when it is given more rounds. -/
def Settles (run : Nat → Option (Outcome Value)) : Prop :=
  ∀ n m, n ≤ m → ∀ o, run n = some o → run m = some o

theorem Stmt.settles_interpret (s : Stmt) (last : Value) (w : World) :
    Settles fun rounds => s.interpret rounds last w :=
  fun _ _ le => s.interpret_mono le last w

theorem ends_some (o : Outcome Value) : Ends fun _ => some o := ⟨0, o, rfl⟩

theorem ends_proceed {α : Type} {o : Outcome α} {next : Nat → α → World → Option (Outcome Value)}
    (rest : ∀ a w, o = (.ok a, w) → Ends fun rounds => next rounds a w) :
    Ends fun rounds => o.proceed (next rounds) := by
  match o with
  | (.error f, w) => exact ends_some (.error f, w)
  | (.ok a, w) => exact rest a w rfl

theorem ends_followedBy {run : Nat → Option (Outcome Value)}
    {next : Nat → Value → World → Option (Outcome Value)} (settles : Settles run)
    (settlesNext : ∀ last w, Settles fun rounds => next rounds last w) (first : Ends run)
    (rest : ∀ n last w, run n = some (.ok last, w) → Ends fun rounds => next rounds last w) :
    Ends fun rounds => followedBy (run rounds) (next rounds) := by
  obtain ⟨n, o, ran⟩ := first
  match o, ran with
  | (.error f, w), ran => exact ⟨n, (.error f, w), congrArg (followedBy · (next n)) ran⟩
  | (.ok last, w), ran =>
      obtain ⟨m, p, later⟩ := rest n last w ran
      refine ⟨max n m, p, ?_⟩
      show followedBy (run (max n m)) (next (max n m)) = some p
      rw [settles n _ (Nat.le_max_left n m) _ ran]
      exact settlesNext last w m _ (Nat.le_max_right n m) p later

/-! ## Statements -/

mutual

/-- Whether every loop is a `for` whose body leaves its variable alone. -/
def Stmt.Bounded : Stmt → Prop
  | .block body => Stmt.BoundedAll body
  | .ifThen _ yes => yes.Bounded
  | .ifElse _ yes no => yes.Bounded ∧ no.Bounded
  | .whileLoop .. | .doWhile .. => False
  | .forTo v _ _ body =>
      (∀ u ∈ body.assigned, u.id ≠ v.id) ∧ (∀ u ∈ body.declared, u.id ≠ v.id) ∧ body.Bounded
  | .declare .. | .expr _ | .goto _ | .branch .. | .label _ => True

def Stmt.BoundedAll : List Stmt → Prop
  | [] => True
  | s :: ss => s.Bounded ∧ Stmt.BoundedAll ss

end

/-- One round of a `for`. -/
def forRound (v : Variable) (body : Stmt) (rounds : Nat) (last : Value) (w : World) :
    Option (Outcome Value) :=
  followedBy (body.interpret rounds last w) fun _ w => some ((increment v).eval w)

theorem settles_forRound (v : Variable) (body : Stmt) (last : Value) (w : World) :
    Settles fun rounds => forRound v body rounds last w :=
  fun _ _ le _ => followedBy_eq_some_mono (body.interpret_mono le last w) fun _ _ h => h

variable {τ : Nat → Ty} {Γ : List Nat}

/-- A loop ends whose variable is an integer that its body leaves alone, since the distance to the
bound gets smaller with every round. -/
theorem forTo_ends {v : Variable} {body : Stmt} {b : Int64} (tyVar : v.ty = .int)
    (fitsVar : v.ty = τ v.id) (typed : body.Typed τ (v.id :: Γ))
    (unassigned : ∀ u ∈ body.assigned, u.id ≠ v.id)
    (undeclared : ∀ u ∈ body.declared, u.id ≠ v.id)
    (ends : ∀ last (w : World), w.store.Respects τ (v.id :: Γ) →
      Ends fun rounds => body.interpret rounds last w)
    {x : Int64} (last : Value) (w : World) (stored : w.store.get? v.id = some (.int x))
    (respects : w.store.Respects τ (v.id :: Γ)) :
    Ends fun rounds =>
      repeatWhile (belowValue v (.int b)).test (forRound v body rounds) rounds last w := by
  induction distance : (b.toInt - x.toInt).toNat generalizing x last w with
  | zero =>
      have past : ¬ x < b := by
        rw [Int64.lt_iff_toInt_lt]
        omega
      refine ⟨1, (.ok last, w), ?_⟩
      simp [repeatWhile, test_belowValue stored, past, Outcome.proceed]
  | succ distance ih =>
      have below : x < b := by
        rw [Int64.lt_iff_toInt_lt]
        omega
      have next := toInt_add_one below
      have round : Ends fun rounds => followedBy (forRound v body rounds last w)
          (repeatWhile (belowValue v (.int b)).test (forRound v body rounds) rounds) := by
        refine ends_followedBy (settles_forRound v body last w) ?_ ?_ ?_
        · exact fun last w n m le o =>
            repeatWhile_mono (fun last w => settles_forRound v body last w n m le) le
        · refine ends_followedBy (body.settles_interpret last w) (fun _ _ _ _ _ _ h => h)
            (ends last w respects) fun _ _ w _ => ends_some ((increment v).eval w)
        · intro n last' w' ran
          obtain ⟨y, w₁, inner, stepped⟩ := value_of_followedBy ran
          have kept : w₁.store.get? v.id = some (.int x) :=
            (Stmt.interpret_frame unassigned undeclared inner).trans stored
          obtain ⟨t, assigned, gives⟩ := eval_increment kept
          rw [gives] at stepped
          cases stepped
          have left := (body.interpret_respects typed last w respects _ inner).left y rfl
          refine @ih (x + 1) _ _ ?_ ?_ (by omega)
          · show t.get? v.id = _
            rw [Store.get?_assign? assigned, if_pos rfl]
          · have right : (Value.int (x + 1)).ty = τ v.id := by
              rw [← fitsVar, tyVar]
              rfl
            exact (left.mono (List.subset_append_right _ _)).assign? right assigned
      obtain ⟨n, o, ran⟩ := round
      refine ⟨n + 1, o, ?_⟩
      have more := followedBy_eq_some_mono
        (settles_forRound v body last w n (n + 1) (Nat.le_succ n))
        (fun last w => repeatWhile_mono
          (fun last w => settles_forRound v body last w n (n + 1) (Nat.le_succ n)) (Nat.le_refl n))
        ran
      simp only [repeatWhile, test_belowValue stored, below, decide_true, Outcome.proceed, if_true]
      exact more

theorem Stmt.interpretAll_ends {body : List Stmt}
    (each : ∀ s ∈ body, ∀ Γ, s.Typed τ Γ → s.Bounded → ∀ last (w : World),
      w.store.Respects τ Γ → Ends fun rounds => s.interpret rounds last w)
    (typed : Stmt.TypedAll τ Γ body) (bounded : Stmt.BoundedAll body) (last : Value) (w : World)
    (respects : w.store.Respects τ Γ) : Ends fun rounds => Stmt.interpretAll rounds body last w := by
  induction body generalizing Γ last w with
  | nil => exact ends_some (.ok last, w)
  | cons s ss ih =>
      rw [List.forall_mem_cons] at each
      refine ends_followedBy (s.settles_interpret last w) ?_
        (each.1 Γ typed.1 bounded.1 last w respects) ?_
      · exact fun last w n m le o => Stmt.interpretAll_more le
      · intro n last' w' ran
        have left := (s.interpret_respects typed.1 last w respects _ ran).left last' rfl
        exact ih each.2 typed.2 bounded.2 last' w' left

/-- A statement in which types fit, and every loop is a `for` whose body leaves its variable alone,
ends with a value or a fault. -/
theorem Stmt.interpret_ends (s : Stmt) (typed : s.Typed τ Γ) (bounded : s.Bounded) (last : Value)
    (w : World) (respects : w.store.Respects τ Γ) :
    Ends fun rounds => s.interpret rounds last w := by
  induction s using Stmt.induction generalizing Γ last w with
  | block body ih =>
      exact Stmt.interpretAll_ends (fun s member Γ => ih s member) typed bounded last w respects
  | declare v init => exact ends_some _
  | expr e => exact ends_some _
  | ifThen test yes ih =>
      have tested := test.test_respects typed.1 w respects
      refine ends_proceed fun holds w same => ?_
      rw [same] at tested
      cases holds with
      | true => exact ih typed.2 bounded last w tested.kept
      | false => exact ends_some _
  | ifElse test yes no ihYes ihNo =>
      have tested := test.test_respects typed.1 w respects
      refine ends_proceed fun holds w same => ?_
      rw [same] at tested
      cases holds with
      | true => exact ihYes typed.2.1 bounded.1 last w tested.kept
      | false => exact ihNo typed.2.2 bounded.2 last w tested.kept
  | forTo v lower upper body ih =>
      obtain ⟨typedLower, typedUpper, tyVar, fitsVar, typedBody⟩ := typed
      obtain ⟨unassigned, undeclared, boundedBody⟩ := bounded
      have typedStart : lower.HasType τ Γ (τ v.id) := by
        rw [← fitsVar, tyVar]
        exact typedLower
      have started := lower.declareAs_respects typedStart w respects
      refine ends_proceed fun x w₁ same => ?_
      rw [same] at started
      have left := started.left x rfl
      have limited := upper.eval_respects (typedUpper.1.weaken (List.subset_cons_self v.id Γ)) w₁ left
      have present : (upper.eval w₁).2.store.contains v.id = true := by
        obtain ⟨w₀, -, rfl⟩ := Expr.declareAs_ok same
        rw [Store.contains_iff_symbols, upper.eval_symbols, ← Store.contains_iff_symbols]
        exact Store.contains_of_get? ((w₀.store.get?_upsert v x v.id).trans (if_pos rfl))
      refine ends_proceed fun bound w₂ same => ?_
      rw [same] at limited present
      obtain ⟨b, rfl⟩ := Value.exists_int ((limited.value bound rfl).trans typedUpper.2)
      obtain ⟨y, stored⟩ := Store.exists_get? present
      have tyStored : y.ty = .int := by
        rw [limited.kept v.id List.mem_cons_self y stored, ← fitsVar, tyVar]
      obtain ⟨n, rfl⟩ := Value.exists_int tyStored
      exact forTo_ends tyVar fitsVar typedBody unassigned undeclared
        (fun last w => ih typedBody boundedBody last w) _ _ stored limited.kept
  | whileLoop test body ih => exact bounded.elim
  | doWhile body test ih => exact bounded.elim
  | goto target => exact typed.elim
  | branch target test when => exact typed.elim
  | label here => exact typed.elim

/-! ## Binding -/

end Bound

namespace Syntax

mutual

/-- Whether there is no `while`, no `do` and no `for mut`. -/
def Stmt.isBounded : Stmt → Bool
  | .block body => body.isBounded
  | .ifThen _ _ yes => yes.isBounded
  | .ifElse _ _ yes no => yes.isBounded && no.isBounded
  | .forTo _ _ mutable _ _ body => !mutable && body.isBounded
  | .whileLoop .. | .doWhile .. => false
  | .var .. | .expr _ => true

def Block.isBounded : Block → Bool
  | .mk _ statements => Stmt.areBounded statements

def Stmt.areBounded : List Stmt → Bool
  | [] => true
  | s :: ss => s.isBounded && Stmt.areBounded ss

end

/-- Whether a text has no `while`, no `do` and no `for mut`. -/
def Tree.isBounded (t : Tree) : Bool := Stmt.areBounded t.root.statements

theorem Stmt.areBounded_iff {body : List Stmt} :
    Stmt.areBounded body = true ↔ ∀ s ∈ body, s.isBounded = true := by
  induction body with
  | nil => simp [Stmt.areBounded]
  | cons s ss ih => simp [Stmt.areBounded, ih]

theorem Block.isBounded_iff {body : Block} :
    body.isBounded = true ↔ ∀ s ∈ body.statements, s.isBounded = true := by
  cases body
  exact Stmt.areBounded_iff

end Syntax

namespace Bound

mutual

/-- Whether every loop is a `for` over a variable that cannot be assigned to. -/
def Stmt.isCounted : Stmt → Bool
  | .block body => Stmt.areCounted body
  | .ifThen _ yes => yes.isCounted
  | .ifElse _ yes no => yes.isCounted && no.isCounted
  | .whileLoop .. | .doWhile .. => false
  | .forTo v _ _ body => !v.mutable && body.isCounted
  | .declare .. | .expr _ | .goto _ | .branch .. | .label _ => true

def Stmt.areCounted : List Stmt → Bool
  | [] => true
  | s :: ss => s.isCounted && Stmt.areCounted ss

end

theorem bindStmts_counted {body : List Syntax.Stmt}
    (each : ∀ s ∈ body, ∀ b : Binder, (bindStmt s b).1.isCounted = true) (b : Binder) :
    Stmt.areCounted (bindStmts body b).1 = true := by
  induction body generalizing b with
  | nil =>
      rw [bindStmts_nil]
      rfl
  | cons s ss ih =>
      rw [List.forall_mem_cons] at each
      rw [bindStmts_cons]
      exact Bool.and_eq_true_iff.2 ⟨each.1 b, ih each.2 _⟩

theorem bindBlock_counted {body : Syntax.Block} (bounded : body.isBounded = true)
    (each : ∀ s ∈ body.statements, s.isBounded = true → ∀ b : Binder,
      (bindStmt s b).1.isCounted = true) (b : Binder) : (bindBlock body b).1.isCounted = true := by
  rw [bindBlock_eq]
  have inside := Syntax.Block.isBounded_iff.1 bounded
  exact bindStmts_counted (fun s member => each s member (inside s member)) b.enter

theorem bindStmt_counted (s : Syntax.Stmt) (bounded : s.isBounded = true) (b : Binder) :
    (bindStmt s b).1.isCounted = true := by
  induction s using Syntax.Stmt.induction generalizing b with
  | block body ih =>
      rw [bindStmt]
      exact bindBlock_counted bounded ih b
  | var span name mutable ty init =>
      rw [bindStmt_var]
      rfl
  | expr e =>
      rw [bindStmt_expr]
      rfl
  | ifThen span test yes ih =>
      rw [bindStmt_ifThen]
      exact bindBlock_counted bounded ih _
  | ifElse span test yes no ihYes ihNo =>
      obtain ⟨boundedYes, boundedNo⟩ := Bool.and_eq_true_iff.1 bounded
      rw [bindStmt_ifElse]
      exact Bool.and_eq_true_iff.2
        ⟨bindBlock_counted boundedYes ihYes _, bindBlock_counted boundedNo ihNo _⟩
  | forTo span var mutable lower upper body ih =>
      obtain ⟨fixed, boundedBody⟩ := Bool.and_eq_true_iff.1 bounded
      rw [bindStmt_forTo]
      refine Bool.and_eq_true_iff.2 ⟨?_, bindBlock_counted boundedBody ih _⟩
      rw [Binder.declare_variable]
      exact fixed
  | whileLoop span test body ih => cases bounded
  | doWhile span body test ih => cases bounded

theorem Stmt.boundedAll_of_counted {body : List Stmt}
    (each : ∀ s ∈ body, s.isCounted = true → (s.declared.map (·.id)).Nodup →
      (∀ u ∈ s.assigned, ∀ v ∈ s.declared, u.id = v.id → v.mutable = true) → s.Bounded)
    (counted : Stmt.areCounted body = true) (ids : ((Stmt.declaredIn body).map (·.id)).Nodup)
    (fixed : ∀ u ∈ Stmt.assignedIn body, ∀ v ∈ Stmt.declaredIn body, u.id = v.id → v.mutable = true) :
    Stmt.BoundedAll body := by
  induction body with
  | nil => trivial
  | cons s ss ih =>
      rw [List.forall_mem_cons] at each
      obtain ⟨countedFirst, countedRest⟩ := Bool.and_eq_true_iff.1 counted
      rw [Stmt.declaredIn, List.map_append, List.nodup_append] at ids
      simp only [Stmt.assignedIn, Stmt.declaredIn, List.mem_append] at fixed
      constructor
      · exact each.1 countedFirst ids.1 fun u assigned v declared =>
          fixed u (.inl assigned) v (.inl declared)
      · exact ih each.2 countedRest ids.2.1 fun u assigned v declared =>
          fixed u (.inr assigned) v (.inr declared)

/-- Where variables are told apart by their numbers, and only those that can be assigned to are, a
body leaves the variable of its loop alone. -/
theorem Stmt.bounded_of_counted (s : Stmt) (counted : s.isCounted = true)
    (ids : (s.declared.map (·.id)).Nodup)
    (fixed : ∀ u ∈ s.assigned, ∀ v ∈ s.declared, u.id = v.id → v.mutable = true) : s.Bounded := by
  induction s using Stmt.induction with
  | block body ih => exact Stmt.boundedAll_of_counted ih counted ids fixed
  | ifThen test yes ih =>
      exact ih counted ids fun u assigned => fixed u (List.mem_append.2 (.inr assigned))
  | ifElse test yes no ihYes ihNo =>
      obtain ⟨countedYes, countedNo⟩ := Bool.and_eq_true_iff.1 counted
      rw [Stmt.declared, List.map_append, List.nodup_append] at ids
      simp only [Stmt.assigned, Stmt.declared, List.mem_append] at fixed
      constructor
      · exact ihYes countedYes ids.1 fun u assigned v declared =>
          fixed u (.inl (.inr assigned)) v (.inl declared)
      · exact ihNo countedNo ids.2.1 fun u assigned v declared =>
          fixed u (.inr assigned) v (.inr declared)
  | forTo v lower upper body ih =>
      obtain ⟨constant, countedBody⟩ := Bool.and_eq_true_iff.1 counted
      rw [Stmt.declared, List.map_cons, List.nodup_cons] at ids
      simp only [Stmt.assigned, Stmt.declared, List.mem_append, List.mem_cons] at fixed
      refine ⟨?_, ?_, ?_⟩
      · intro u assigned same
        rw [fixed u (.inr assigned) v (.inl rfl) same] at constant
        cases constant
      · intro u declared same
        exact ids.1 (same ▸ List.mem_map_of_mem declared)
      · exact ih countedBody ids.2 fun u assigned w declared =>
          fixed u (.inr assigned) w (.inr declared)
  | whileLoop test body ih => cases counted
  | doWhile body test ih => cases counted
  | declare v init => trivial
  | expr e => trivial
  | goto target => trivial
  | branch target test when => trivial
  | label here => trivial

end Bound

/-! ## Sessions -/

open ScriptLang.Bound (Stmt Submission)

/-- The sessions that diagnostic-free programs lead to, whether they join only with a value, join
with a fault too, or join without a run.  In the last two cases a chain starts on an empty store:
what a program that failed and did not join leaves there, under numbers that are taken again, is not
reached by the chain. -/
inductive Session.Grown : Session → Prop where
  | start (w : World) (empty : w.store = .empty) : Grown (.start w)
  | reset {s : Session} (h : Grown s) : Grown s.reset
  /-- Other streams, and other random words. -/
  | streams {s : Session} (h : Grown s) (w : World) (same : w.store = s.world.store) :
      Grown { s with world := w }
  | submit {s s' : Session} (h : Grown s) {fuel : Nat} {text : String} {reply : Reply}
      (submitted : s.submit fuel (.ofText text) = some (reply, s')) : Grown s'
  | force {s s' : Session} (h : Grown s) {fuel : Nat} {text : String} {reply : Reply}
      (first : s.chain = [] → s.world.store = .empty)
      (clean : (s.attempt (.ofText text)).diagnostics = [])
      (forced : s.force fuel (.ofText text) = some (reply, s')) : Grown s'
  | declare {s : Session} (h : Grown s) {text : String}
      (first : s.chain = [] → s.world.store = .empty)
      (clean : (s.attempt (.ofText text)).diagnostics = []) : Grown (s.declare (.ofText text)).2

/-- What holds of such a session: its variables have no values of other types, and the numbers that
are still free have no values, but those that are taken again. -/
structure Session.Regular (s : Session) : Prop where
  numbered : s.Numbered
  typed : ∀ v ∈ chainVariables s.chain, ∀ x, s.world.store.get? v.id = some x → x.ty = v.ty
  free : s.chain ≠ [] → ∀ id, s.nextId ≤ id → s.world.store.get? id = none

theorem Store.respects_iff {τ : Nat → Ty} {vs : List Variable} (types : ∀ v ∈ vs, τ v.id = v.ty)
    (s : Store) : s.Respects τ (vs.map (·.id)) ↔
      ∀ v ∈ vs, ∀ x, s.get? v.id = some x → x.ty = v.ty := by
  rw [Store.Respects, List.forall_mem_map]
  refine forall₂_congr fun v member => ?_
  rw [types v member]

theorem Store.respects_below {τ : Nat → Ty} {Γ : List Nat} {c : Nat} (low : ∀ id ∈ Γ, id < c)
    (s : Store) : (s.below c).Respects τ Γ ↔ s.Respects τ Γ := by
  refine forall₂_congr fun id member => ?_
  rw [Store.get?_below (low id member)]

theorem Store.get?_prune_eq_none (store : Store) {chain : List Submission} {id : Nat}
    (other : ∀ v ∈ chainVariables chain, v.id ≠ id) : (store.prune chain).get? id = none := by
  rw [Store.prune, Store.get?_retain store fun id => (chainVariables chain).any (·.id = id), if_neg]
  rw [Variable.any_id]
  rintro ⟨v, member, same⟩
  exact other v member same

namespace Session

variable {s : Session} {tree : Syntax.Tree} {body : List Stmt}

theorem Checked.types_eq (checked : s.Checked (s.attempt tree) body) (numbered : s.Numbered)
    {v : Variable} (member : v ∈ chainVariables s.chain ++ Stmt.declaredIn body) :
    s.types body v.id = v.ty :=
  typeOf_eq (numbered.nodup checked.ids) member

/-- The top-level variables after a submission are among those that it has to do with. -/
theorem Checked.chain_subset (checked : s.Checked (s.attempt tree) body) :
    chainVariables (s.attempt tree).chain ⊆ chainVariables s.chain ++ Stmt.declaredIn body := by
  rw [checked.chainVariables_eq]
  exact ((List.Sublist.refl _).append (Bound.leavesOf_sublist body)).subset

theorem Checked.types_chain (checked : s.Checked (s.attempt tree) body) (numbered : s.Numbered) :
    ∀ v ∈ chainVariables (s.attempt tree).chain, s.types body v.id = v.ty :=
  fun _ member => checked.types_eq numbered (checked.chain_subset member)

theorem Regular.respects (regular : s.Regular) (checked : s.Checked (s.attempt tree) body) :
    s.world.store.Respects (s.types body) ((chainVariables s.chain).map (·.id)) := by
  refine (Store.respects_iff (fun v member => ?_) _).2 regular.typed
  exact checked.types_eq regular.numbered (List.mem_append.2 (.inl member))

theorem Regular.low (regular : s.Regular) (checked : s.Checked (s.attempt tree) body) :
    ∀ id ∈ (chainVariables s.chain).map (·.id), id < (s.attempt tree).nextId :=
  List.forall_mem_map.2 fun v member =>
    Nat.lt_of_lt_of_le (regular.numbered.below v member) checked.le

/-- What a program that stops has done to variables that have no values of other types, among them
those of the chain. -/
theorem Checked.respects (checked : s.Checked (s.attempt tree) body)
    (clean : (s.attempt tree).diagnostics = []) (regular : s.Regular) {Δ : List Nat}
    (old : (chainVariables s.chain).map (·.id) ⊆ Δ) (low : ∀ id ∈ Δ, id < (s.attempt tree).nextId)
    (respects : s.world.store.Respects (s.types body) Δ) {fuel : Nat} {o : Outcome Value}
    (ended : runProgram fuel (s.attempt tree).lowered.program s.world = some o) :
    o.Respects (s.types body) Δ ((Bound.leavesOf body).map (·.id) ++ Δ) fun _ => True := by
  have program := checked.program clean regular.numbered
  obtain ⟨rounds, ran⟩ := program.ends_iff.2 ⟨fuel, o, ended, rfl⟩
  have typed : Stmt.TypedAll (s.types body) Δ body :=
    Bound.Stmt.Typed.weaken (s := .block body) _ _ old checked.typed
  have result := Stmt.interpretAll_respects (fun s _ Γ typed => s.interpret_respects typed) typed .void
    _ ((Store.respects_below low _).2 respects) _ ran
  have lowLeft : ∀ id ∈ (Bound.leavesOf body).map (·.id) ++ Δ, id < (s.attempt tree).nextId := by
    refine List.forall_mem_append.2 ⟨List.forall_mem_map.2 fun v member => ?_, low⟩
    exact (checked.declared_low ((Bound.leavesOf_sublist body).subset member)).2
  exact ⟨(Store.respects_below low _).1 result.kept, fun _ _ => trivial,
    fun x value => (Store.respects_below lowLeft _).1 (result.left x value)⟩

theorem Regular.start (w : World) : (Session.start w).Regular where
  numbered := (Sound.start w).numbered
  typed := fun _ member => nomatch member
  free := fun some => absurd rfl some

theorem Regular.abandon (regular : s.Regular) {nextId : Nat} (le : s.nextId ≤ nextId) :
    (s.abandon nextId).Regular := by
  unfold Session.abandon
  split
  · exact regular
  · obtain ⟨⟨ids, below, known⟩, typed, free⟩ := regular
    exact ⟨⟨ids, fun v member => Nat.lt_of_lt_of_le (below v member) le, known⟩, typed,
      fun some id high => free some id (Nat.le_trans le high)⟩

/-- The numbers that are free after a submission have no values. -/
theorem Checked.free (checked : s.Checked (s.attempt tree) body) (numbered : s.Numbered) (w : World)
    {id : Nat} (high : (s.attempt tree).lowered.nextId ≤ id) :
    (w.store.prune (s.attempt tree).chain).get? id = none := by
  refine Store.get?_prune_eq_none _ fun v member same => ?_
  have low := checked.low numbered v member
  have le := checked.lowered_le
  omega

theorem Checked.regular_join (checked : s.Checked (s.attempt tree) body) (numbered : s.Numbered)
    {w : World} (typed : ∀ v ∈ chainVariables (s.attempt tree).chain, ∀ x,
      w.store.get? v.id = some x → x.ty = v.ty) :
    ((s.after (s.attempt tree) w).join (s.attempt tree) (s.attempt tree).lowered.nextId).Regular where
  numbered := checked.numbered numbered rfl checked.lowered_le
  typed := fun v member x stored => typed v member x ((get?_prune _ member).symm.trans stored)
  free := fun _ _ high => checked.free numbered w high

theorem Checked.regular_fault (checked : s.Checked (s.attempt tree) body)
    (clean : (s.attempt tree).diagnostics = []) (regular : s.Regular) {fuel : Nat} {o : Outcome Value}
    (ended : runProgram fuel (s.attempt tree).lowered.program s.world = some o) :
    ((s.after (s.attempt tree) o.2).abandon (s.attempt tree).lowered.nextId).Regular := by
  have typed : ∀ v ∈ chainVariables s.chain, ∀ x,
      (o.2.store.prune (s.attempt tree).chain).get? v.id = some x → x.ty = v.ty := by
    have result := checked.respects clean regular (List.Subset.refl _) (regular.low checked)
      (regular.respects checked) ended
    intro v member x stored
    have later : v ∈ chainVariables (s.attempt tree).chain := by
      rw [checked.chainVariables_eq]
      exact List.mem_append.2 (.inl member)
    rw [get?_prune _ later] at stored
    exact (result.kept v.id (List.mem_map_of_mem member) x stored).trans
      (checked.types_chain regular.numbered v later)
  obtain ⟨ids, below, known⟩ := regular.numbered
  unfold Session.abandon
  split
  · next empty =>
      refine ⟨⟨ids, below, known⟩, typed, fun some => ?_⟩
      exact absurd (List.isEmpty_iff.1 empty) some
  · refine ⟨⟨ids, ?_, known⟩, typed, fun _ _ high => checked.free regular.numbered o.2 high⟩
    exact fun v member => Nat.lt_of_lt_of_le (below v member) checked.nextId_le

/-- A program that gives a value has stored none of another type. -/
theorem Checked.typed_of_value (checked : s.Checked (s.attempt tree) body)
    (clean : (s.attempt tree).diagnostics = []) (regular : s.Regular) {fuel : Nat} {x : Value}
    {w : World}
    (ended : runProgram fuel (s.attempt tree).lowered.program s.world = some (.ok x, w)) :
    ∀ v ∈ chainVariables (s.attempt tree).chain, ∀ y, w.store.get? v.id = some y → y.ty = v.ty := by
  have result := checked.respects clean regular (List.Subset.refl _) (regular.low checked)
    (regular.respects checked) ended
  refine (Store.respects_iff (checked.types_chain regular.numbered) _).1 ?_
  rw [checked.chainVariables_eq, List.map_append]
  exact (result.left x rfl).mono (List.append_subset.2
    ⟨List.subset_append_right _ _, List.subset_append_left _ _⟩)

/-- Numbers that are free have no values, if those of the first submission have none. -/
theorem Regular.unused (regular : s.Regular) (first : s.chain = [] → s.world.store = .empty) {id : Nat}
    (high : s.nextId ≤ id) : s.world.store.get? id = none := by
  by_cases empty : s.chain = []
  · rw [first empty]
    rfl
  · exact regular.free empty id high

/-- The variables of a submission have no values before it. -/
theorem Checked.typed_before (checked : s.Checked (s.attempt tree) body) (regular : s.Regular)
    (first : s.chain = [] → s.world.store = .empty) :
    ∀ v ∈ chainVariables (s.attempt tree).chain, ∀ x,
      s.world.store.get? v.id = some x → x.ty = v.ty := by
  intro v member x stored
  rw [checked.chainVariables_eq] at member
  rcases List.mem_append.1 member with old | new
  · exact regular.typed v old x stored
  · have high := (checked.declared_low ((Bound.leavesOf_sublist body).subset new)).1
    rw [regular.unused first high] at stored
    cases stored

/-- A program that stops, with a value or not, has stored none of another type, if its variables had
no values before. -/
theorem Checked.typed_of_unused (checked : s.Checked (s.attempt tree) body)
    (clean : (s.attempt tree).diagnostics = []) (regular : s.Regular)
    (first : s.chain = [] → s.world.store = .empty) {fuel : Nat} {o : Outcome Value}
    (ended : runProgram fuel (s.attempt tree).lowered.program s.world = some o) :
    ∀ v ∈ chainVariables (s.attempt tree).chain, ∀ x, o.2.store.get? v.id = some x → x.ty = v.ty := by
  have types := checked.types_chain regular.numbered
  have old : (chainVariables s.chain).map (·.id) ⊆
      (chainVariables (s.attempt tree).chain).map (·.id) := by
    rw [checked.chainVariables_eq, List.map_append]
    exact List.subset_append_left _ _
  have low : ∀ id ∈ (chainVariables (s.attempt tree).chain).map (·.id),
      id < (s.attempt tree).nextId :=
    List.forall_mem_map.2 (checked.low regular.numbered)
  have result := checked.respects clean regular old low
    ((Store.respects_iff types _).2 (checked.typed_before regular first)) ended
  exact (Store.respects_iff types _).1 result.kept

theorem Grown.regular (grown : s.Grown) : s.Regular := by
  induction grown with
  | start w empty => exact .start w
  | reset h ih => exact .start _
  | streams h w same ih => exact ⟨⟨ih.numbered.ids, ih.numbered.below, ih.numbered.known⟩,
      same ▸ ih.typed, same ▸ ih.free⟩
  | @submit s s' h fuel text reply submitted ih =>
      obtain ⟨-, -, rfl⟩ | ⟨w, clean, ⟨f, ended, -, rfl⟩ | ⟨x, ended, -, rfl⟩⟩ :=
        submit_cases submitted
      · exact ih.abandon (Bound.bindProgram_le _ _ (Syntax.Tree.ofText text).source _)
      · obtain ⟨body, checked⟩ := ih.numbered.checked_ofText clean
        exact checked.regular_fault clean ih ended
      · obtain ⟨body, checked⟩ := ih.numbered.checked_ofText clean
        exact checked.regular_join ih.numbered (checked.typed_of_value clean ih ended)
  | @force s s' h fuel text reply first clean forced ih =>
      obtain ⟨body, checked⟩ := ih.numbered.checked_ofText clean
      unfold Session.force evaluate at forced
      dsimp only at forced
      rw [clean] at forced
      obtain ⟨o, ended, same⟩ := Option.map_eq_some_iff.1 forced
      cases same
      exact checked.regular_join ih.numbered (checked.typed_of_unused clean ih first ended)
  | @declare s h text first clean ih =>
      obtain ⟨body, checked⟩ := ih.numbered.checked_ofText clean
      refine ⟨checked.numbered ih.numbered rfl (Nat.le_refl _), checked.typed_before ih first, ?_⟩
      exact fun _ id high => ih.unused first (Nat.le_trans checked.le high)

/-! ## Submissions that end -/

theorem Checked.bounded {text : String} (checked : s.Checked (s.attempt (.ofText text)) body)
    (clean : (s.attempt (.ofText text)).diagnostics = []) (numbered : s.Numbered)
    (bounded : (Syntax.Tree.ofText text).isBounded = true) : (Stmt.block body).Bounded := by
  have counted : Stmt.areCounted body = true := by
    rw [checked.body_eq]
    refine Bound.bindStmts_counted (fun s member => Bound.bindStmt_counted s ?_) _
    exact Syntax.Stmt.areBounded_iff.1 bounded s member
  refine Stmt.bounded_of_counted (.block body) counted checked.nodup ?_
  intro u assigned v declared same
  obtain ⟨mutable, which⟩ := checked.assigned clean assigned
  have known : u ∈ chainVariables s.chain ++ Stmt.declaredIn body := by
    rcases which with own | ⟨old, -⟩
    · exact List.mem_append.2 (.inr own)
    · exact List.mem_append.2 (.inl old)
  have equal := checked.eq_of_id numbered known (List.mem_append.2 (.inr declared)) same
  rwa [equal] at mutable

/-- A submission without diagnostics that has no `while`, no `do` and no `for mut` is answered with
a value or a fault, after finitely many steps of the machine. -/
theorem submit_ends {s : Session} (grown : s.Grown) (text : String)
    (clean : (s.attempt (.ofText text)).diagnostics = [])
    (bounded : (Syntax.Tree.ofText text).isBounded = true) :
    ∃ fuel o s', runProgram fuel (s.attempt (.ofText text)).lowered.program s.world = some o ∧
      s.submit fuel (.ofText text) = some (.ofResult o.1, s') := by
  have regular := grown.regular
  obtain ⟨body, checked⟩ := regular.numbered.checked_ofText clean
  have respects : (s.world.below (s.attempt (.ofText text)).nextId).store.Respects (s.types body)
      ((chainVariables s.chain).map (·.id)) :=
    (Store.respects_below (regular.low checked) _).2 (regular.respects checked)
  have ends : Bound.Ends fun rounds =>
      Stmt.interpretAll rounds body .void (s.world.below (s.attempt (.ofText text)).nextId) :=
    Stmt.interpret_ends (.block body) checked.typed (checked.bounded clean regular.numbered bounded)
      .void _ respects
  obtain ⟨fuel, o, ended⟩ := (checked.program clean regular.numbered).stops_iff_ends.2 ends
  exact ⟨fuel, o, _, ended, submit_of_run clean ended⟩

/-- A session with a variable that has no value, since the division failed. -/
def halted : Session :=
  ((Session.start (.start [] (.ofSeed 0))).force 100
    (.ofText "var mut n = 3; var m = n / 0")).elim (.start (.start [] (.ofSeed 0))) (·.2)

theorem grown_halted : halted.Grown := by
  have first : (Session.start (.start [] (.ofSeed 0))).Grown := .start _ rfl
  unfold halted
  cases forced : (Session.start (.start [] (.ofSeed 0))).force 100
      (.ofText "var mut n = 3; var m = n / 0") with
  | none => exact first
  | some answer => exact .force first (fun _ => rfl) (by decide +kernel) forced

/-- Loops over the variables of the session; the inner one changes the bound of the outer one, and
comes to the variable without a value. -/
def nestedLoops : String :=
  "for i = 0 to n \x7b for j = i to n * 2 \x7b n = n + 1; if n > 20 \x7b m \x7d \x7d \x7d"

theorem nestedLoops_submit_ends :
    (halted.attempt (.ofText nestedLoops)).diagnostics = [] ∧
      (Syntax.Tree.ofText nestedLoops).isBounded = true ∧
      ∃ fuel o s',
        runProgram fuel (halted.attempt (.ofText nestedLoops)).lowered.program halted.world = some o ∧
          halted.submit fuel (.ofText nestedLoops) = some (.ofResult o.1, s') := by
  have clean : (halted.attempt (.ofText nestedLoops)).diagnostics = [] := by decide +kernel
  have bounded : (Syntax.Tree.ofText nestedLoops).isBounded = true := by decide +kernel
  exact ⟨clean, bounded, submit_ends grown_halted _ clean bounded⟩

end Session

end ScriptLang
