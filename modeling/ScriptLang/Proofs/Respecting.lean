/-
# ScriptLang.Proofs.Respecting -- variables that have values have them of their types

A submission whose program failed leaves variables without values.  A program that
uses one of them fails, so what is known of its expressions is weaker than for a
program all of whose variables have values: a value that comes out has the right
type, and so has every value that is stored.

A store respects the types of some variables if those of them that have values have
values of their types (`Store.Respects`).  A run of a statement in which types fit
keeps this however it ends, and if it gives a value it has also stored values of the
right types for the variables that the statement leaves (`Stmt.interpret_respects`).
-/
import ScriptLang.Proofs.Evaluation
import ScriptLang.Proofs.SafeCode

namespace ScriptLang

set_option autoImplicit false

/-! ## Stores and outcomes -/

/-- Whether the variables with some numbers have values of their types, if they have values. -/
def Store.Respects (τ : Nat → Ty) (Γ : List Nat) (s : Store) : Prop :=
  ∀ id ∈ Γ, ∀ x, s.get? id = some x → x.ty = τ id

variable {τ : Nat → Ty} {Γ Δ Θ : List Nat}

namespace Store.Respects

variable {s t : Store}

theorem mono (respects : s.Respects τ Δ) (sub : Γ ⊆ Δ) : s.Respects τ Γ :=
  fun id member => respects id (sub member)

theorem of_get? {id : Nat} {x : Value} (respects : s.Respects τ Γ) (right : x.ty = τ id)
    (get : ∀ i, t.get? i = if i = id then some x else s.get? i) : t.Respects τ (id :: Γ) := by
  intro i member y stored
  rw [get] at stored
  by_cases same : i = id
  · rw [if_pos same] at stored
    cases stored
    rw [same]
    exact right
  · rw [if_neg same] at stored
    exact respects i ((List.mem_cons.1 member).resolve_left same) y stored

theorem upsert {v : Variable} {x : Value} (respects : s.Respects τ Γ) (right : x.ty = τ v.id) :
    (s.upsert v x).Respects τ (v.id :: Γ) :=
  respects.of_get? right (s.get?_upsert v x)

theorem assign? {id : Nat} {x : Value} (respects : s.Respects τ Γ) (right : x.ty = τ id)
    (assigned : s.assign? id x = some t) : t.Respects τ Γ :=
  (respects.of_get? right (Store.get?_assign? assigned)).mono (List.subset_cons_self _ _)

end Store.Respects

/-- Whether an outcome respects types: variables of `Γ` do however it ended, and if there is a value,
it is as it should be, and variables of `Δ` do. -/
structure Outcome.Respects {α : Type} (τ : Nat → Ty) (Γ Δ : List Nat) (Q : α → Prop)
    (o : Outcome α) : Prop where
  kept : o.2.store.Respects τ Γ
  value : ∀ a, o.1 = .ok a → Q a
  left : ∀ a, o.1 = .ok a → o.2.store.Respects τ Δ

namespace Outcome.Respects

variable {α β : Type} {Q : α → Prop} {R : β → Prop}

theorem ok {a : α} {w : World} (left : w.store.Respects τ Δ) (sub : Γ ⊆ Δ) (right : Q a) :
    Outcome.Respects τ Γ Δ Q (.ok a, w) where
  kept := left.mono sub
  value := by rintro a ⟨⟩; exact right
  left := fun _ _ => left

theorem error {f : Fault} {w : World} (kept : w.store.Respects τ Γ) :
    Outcome.Respects τ Γ Δ Q (.error f, w) where
  kept := kept
  value := by rintro a ⟨⟩
  left := by rintro a ⟨⟩

theorem of_good {ty : Ty} {result : Except Fault Value} {w : World} (good : Good ty result)
    (kept : w.store.Respects τ Γ) : Outcome.Respects τ Γ Γ (fun x => x.ty = ty) (result, w) where
  kept := kept
  value := by rintro x rfl; exact good
  left := fun _ _ => kept

theorem andThen {o : Outcome α} {f : α → World → Outcome β} (first : o.Respects τ Γ Δ Q)
    (next : ∀ a w, w.store.Respects τ Δ → Q a → (f a w).Respects τ Γ Θ R) :
    (o.andThen f).Respects τ Γ Θ R := by
  obtain ⟨result, w⟩ := o
  cases result with
  | ok a => exact next a w (first.left a rfl) (first.value a rfl)
  | error f => exact .error first.kept

end Outcome.Respects

/-- Whether a run, if it ends, ends with such an outcome. -/
def RunRespects (τ : Nat → Ty) (Γ Δ : List Nat) (run : Option (Outcome Value)) : Prop :=
  ∀ o ∈ run, o.Respects τ Γ Δ fun _ => True

theorem Outcome.Respects.run {Q : Value → Prop} {o : Outcome Value} (h : o.Respects τ Γ Δ Q) :
    RunRespects τ Γ Δ (some o) := by
  rintro o ⟨⟩
  exact ⟨h.kept, fun _ _ => trivial, h.left⟩

theorem Outcome.Respects.proceed {α : Type} {Q : α → Prop} {o : Outcome α}
    {next : α → World → Option (Outcome Value)} (first : o.Respects τ Γ Δ Q)
    (rest : ∀ a w, w.store.Respects τ Δ → Q a → RunRespects τ Γ Θ (next a w)) :
    RunRespects τ Γ Θ (o.proceed next) := by
  obtain ⟨result, w⟩ := o
  cases result with
  | ok a => exact rest a w (first.left a rfl) (first.value a rfl)
  | error f => exact Outcome.Respects.run (Q := fun _ => True) (.error first.kept)

namespace RunRespects

theorem mono {run : Option (Outcome Value)} {Γ' Δ' : List Nat} (h : RunRespects τ Γ Δ run)
    (sub : Γ' ⊆ Γ) (sub' : Δ' ⊆ Δ) : RunRespects τ Γ' Δ' run := by
  intro o ended
  have here := h o ended
  exact ⟨here.kept.mono sub, here.value, fun a value => (here.left a value).mono sub'⟩

theorem ok {x : Value} {w : World} (respects : w.store.Respects τ Γ) :
    RunRespects τ Γ Γ (some (.ok x, w)) :=
  Outcome.Respects.run (Q := fun _ => True) (.ok respects (List.Subset.refl _) trivial)

/-- What is left to statements outside. -/
theorem inside {run : Option (Outcome Value)} (h : RunRespects τ Γ (Δ ++ Γ) run) :
    RunRespects τ Γ Γ run :=
  h.mono (List.Subset.refl _) (List.subset_append_right _ _)

theorem followedBy {run : Option (Outcome Value)} {next : Value → World → Option (Outcome Value)}
    (first : RunRespects τ Γ Δ run)
    (rest : ∀ last w, w.store.Respects τ Δ → RunRespects τ Γ Θ (next last w)) :
    RunRespects τ Γ Θ (followedBy run next) := by
  cases run with
  | none => rintro o ⟨⟩
  | some o => exact (first o rfl).proceed fun last w respects _ => rest last w respects

theorem repeatWhile {test : World → Outcome Bool} {body : Value → World → Option (Outcome Value)}
    (tests : ∀ w, w.store.Respects τ Γ → (test w).Respects τ Γ Γ fun _ => True)
    (round : ∀ last w, w.store.Respects τ Γ → RunRespects τ Γ Γ (body last w)) (rounds : Nat)
    (last : Value) {w : World} (respects : w.store.Respects τ Γ) :
    RunRespects τ Γ Γ (Bound.repeatWhile test body rounds last w) := by
  induction rounds generalizing last w with
  | zero => rintro o ⟨⟩
  | succ rounds ih =>
      rw [Bound.repeatWhile]
      apply (tests w respects).proceed
      intro holds w respects _
      cases holds with
      | true => exact (round last w respects).followedBy fun last _ respects => ih last respects
      | false => exact .ok respects

end RunRespects

/-! ## Expressions -/

namespace Bound

theorem Expr.evalAll_respects {args : List Expr}
    (each : ∀ e ∈ args, ∀ w : World, w.store.Respects τ Γ →
      (e.eval w).Respects τ Γ Γ fun x => x.ty = e.ty)
    {w : World} (respects : w.store.Respects τ Γ) :
    (Expr.evalAll args w).Respects τ Γ Γ fun xs => xs.map Value.ty = args.map Expr.ty := by
  induction args generalizing w with
  | nil => exact .ok respects (List.Subset.refl _) rfl
  | cons e es ih =>
      rw [List.forall_mem_cons] at each
      rw [Expr.evalAll]
      apply (each.1 w respects).andThen
      intro x w respects first
      refine (ih each.2 respects).andThen fun xs w respects types => ?_
      refine .ok respects (List.Subset.refl _) ?_
      rw [List.map_cons, List.map_cons, first, types]

/-- An expression in which types fit gives no value of another type, and stores none. -/
theorem Expr.eval_respects (e : Expr) (typed : e.Typed τ Γ) (w : World)
    (respects : w.store.Respects τ Γ) : (e.eval w).Respects τ Γ Γ fun x => x.ty = e.ty := by
  induction e using Expr.induction generalizing w with
  | literal value => exact .ok respects (List.Subset.refl _) rfl
  | unary rule operand ih =>
      obtain ⟨inner, plain, found⟩ := typed
      rw [Expr.eval]
      refine (ih inner w respects).andThen fun x w respects ty => .of_good ?_ respects
      exact Operation.unary_good plain (by rw [ty]; exact found)
  | binary left rule right ihLeft ihRight =>
      obtain ⟨typedLeft, typedRight, found⟩ := typed
      have announced : BinaryRule.result? rule.op left.ty right.ty = some rule.result := by
        obtain ⟨result, given, same⟩ := Option.map_eq_some_iff.1 found
        rw [given, ← same]
      rw [Expr.eval]
      apply (ihLeft typedLeft w respects).andThen
      intro l w respects tyLeft
      refine (ihRight typedRight w respects).andThen fun r w respects tyRight => .of_good ?_ respects
      exact Operation.binary_good (by rw [tyLeft, tyRight]; exact announced)
  | var v =>
      rw [Expr.eval]
      cases stored : w.store.get? v.id with
      | none => exact .error respects
      | some x =>
          refine .ok respects (List.Subset.refl _) ?_
          exact (respects v.id typed.1 x stored).trans typed.2.symm
  | assign v value ih =>
      obtain ⟨-, tyVar, inner, tyValue⟩ := typed
      rw [Expr.eval]
      apply (ih inner w respects).andThen
      intro x w respects ty
      cases assigned : w.store.assign? v.id x with
      | none => exact .error respects
      | some t =>
          refine .ok (respects.assign? ?_ assigned) (List.Subset.refl _) ty
          rw [ty, tyValue, tyVar]
  | call f args ih =>
      obtain ⟨typedArgs, b, rfl, takes⟩ := typed
      rw [Expr.typedAll_iff] at typedArgs
      rw [Expr.eval]
      have given := Expr.evalAll_respects (fun e member => ih e member (typedArgs e member)) respects
      apply given.andThen
      intro xs w respects types
      have after : (b.function.run xs w).2.store.Respects τ Γ := by
        rw [b.function.run_store]
        exact respects
      have sound := b.run_sound (τ := τ) (w := w) b.name (by rw [types]; exact takes)
      exact ⟨after, sound.value, fun _ _ => after⟩
  | convert ty e ih =>
      obtain ⟨inner, possible⟩ := typed
      rw [Expr.eval]
      refine (ih inner w respects).andThen fun x w respects tyx => .of_good ?_ respects
      exact Operation.convert_good (by rw [tyx]; exact possible)
  | error => exact typed.elim

theorem Expr.test_respects (e : Expr) (typed : e.HasType τ Γ .bool) (w : World)
    (respects : w.store.Respects τ Γ) : (e.test w).Respects τ Γ Γ fun _ => True := by
  apply (e.eval_respects typed.1 w respects).andThen
  intro x w respects ty
  obtain ⟨b, rfl⟩ := Value.exists_bool (ty.trans typed.2)
  exact .ok respects (List.Subset.refl _) trivial

/-- The value of a declaration is stored under the type of its variable. -/
theorem Expr.declareAs_respects (e : Expr) {v : Variable} (typed : e.HasType τ Γ (τ v.id)) (w : World)
    (respects : w.store.Respects τ Γ) :
    (e.declareAs v w).Respects τ Γ (v.id :: Γ) fun x => x.ty = τ v.id := by
  apply (e.eval_respects typed.1 w respects).andThen
  intro x w respects ty
  have right := ty.trans typed.2
  exact .ok (respects.upsert right) (List.subset_cons_self _ _) right

theorem belowValue_hasType {v : Variable} (member : v.id ∈ Γ) (tyVar : v.ty = .int)
    (fitsVar : v.ty = τ v.id) (b : Int64) : (belowValue v (.int b)).HasType τ Γ .bool := by
  refine ⟨⟨⟨member, fitsVar⟩, trivial, ?_⟩, rfl⟩
  show BinaryRule.find? .lt v.ty .int = _
  rw [tyVar]
  rfl

/-! ## Statements -/

theorem Stmt.interpretAll_respects {rounds : Nat} {body : List Stmt}
    (each : ∀ s ∈ body, ∀ Γ, s.Typed τ Γ → ∀ last (w : World), w.store.Respects τ Γ →
      RunRespects τ Γ (s.leaves.map (·.id) ++ Γ) (s.interpret rounds last w))
    (typed : Stmt.TypedAll τ Γ body) (last : Value) (w : World) (respects : w.store.Respects τ Γ) :
    RunRespects τ Γ ((leavesOf body).map (·.id) ++ Γ) (Stmt.interpretAll rounds body last w) := by
  induction body generalizing Γ last w with
  | nil => exact .ok respects
  | cons s ss ih =>
      rw [List.forall_mem_cons] at each
      rw [Stmt.interpretAll]
      apply (each.1 Γ typed.1 last w respects).followedBy
      intro last w respects
      exact (ih each.2 typed.2 last w respects).mono (List.subset_append_right _ _)
        (leavesOf_cons_subset s ss Γ)

/-- A statement in which types fit stores no value of another type. -/
theorem Stmt.interpret_respects {rounds : Nat} (s : Stmt) (typed : s.Typed τ Γ) (last : Value)
    (w : World) (respects : w.store.Respects τ Γ) :
    RunRespects τ Γ (s.leaves.map (·.id) ++ Γ) (s.interpret rounds last w) := by
  induction s using Stmt.induction generalizing Γ last w with
  | block body ih =>
      rw [Stmt.interpret]
      exact (Stmt.interpretAll_respects (fun s member Γ => ih s member) typed last w respects).inside
  | declare v init =>
      exact (init.declareAs_respects (typed.2 ▸ typed.1) w respects).run
  | expr e => exact (e.eval_respects typed w respects).run
  | ifThen test yes ih =>
      rw [Stmt.interpret]
      apply (test.test_respects typed.1 w respects).proceed
      intro holds w respects _
      cases holds with
      | true => exact (ih typed.2 last w respects).inside
      | false => exact .ok respects
  | ifElse test yes no ihYes ihNo =>
      rw [Stmt.interpret]
      apply (test.test_respects typed.1 w respects).proceed
      intro holds w respects _
      cases holds with
      | true => exact (ihYes typed.2.1 last w respects).inside
      | false => exact (ihNo typed.2.2 last w respects).inside
  | whileLoop test body ih =>
      rw [Stmt.interpret]
      refine RunRespects.repeatWhile (test.test_respects typed.1) ?_ rounds last respects
      intro last w respects
      exact (ih typed.2 last w respects).inside
  | doWhile body test ih =>
      have round : ∀ last (w : World), w.store.Respects τ Γ →
          RunRespects τ Γ Γ (body.interpret rounds last w) :=
        fun last w respects => (ih typed.1 last w respects).inside
      rw [Stmt.interpret]
      apply (round last w respects).followedBy
      intro last w respects
      exact RunRespects.repeatWhile (test.test_respects typed.2) round rounds last respects
  | forTo v lower upper body ih =>
      obtain ⟨typedLower, typedUpper, tyVar, fitsVar, typedBody⟩ := typed
      have own : v.id ∈ v.id :: Γ := List.mem_cons_self
      rw [Stmt.interpret]
      have typedStart : lower.HasType τ Γ (τ v.id) := by
        rw [← fitsVar, tyVar]
        exact typedLower
      apply (lower.declareAs_respects typedStart w respects).proceed
      intro _ w respects _
      have bounded := upper.eval_respects (typedUpper.1.weaken (List.subset_cons_self v.id Γ)) w respects
      apply Outcome.Respects.proceed (Δ := v.id :: Γ) (Q := fun x => x.ty = .int)
      · exact ⟨bounded.kept.mono (List.subset_cons_self _ _),
          fun x value => (bounded.value x value).trans typedUpper.2, bounded.left⟩
      intro bound w respects ty
      obtain ⟨b, rfl⟩ := Value.exists_int ty
      have loop : RunRespects τ (v.id :: Γ) (v.id :: Γ) (repeatWhile (belowValue v (.int b)).test
          (fun last w => followedBy (body.interpret rounds last w)
            fun _ w => some ((increment v).eval w)) rounds (.int b) w) := by
        refine RunRespects.repeatWhile
          ((belowValue v (.int b)).test_respects (belowValue_hasType own tyVar fitsVar b)) ?_ rounds _
          respects
        intro last w respects
        apply (ih typedBody last w respects).followedBy
        intro _ w respects
        exact ((increment v).eval_respects (increment_typed own tyVar fitsVar) w
          (respects.mono (List.subset_append_right _ _))).run
      exact loop.mono (List.subset_cons_self _ _) (List.subset_cons_self _ _)
  | goto target => exact typed.elim
  | branch target test when => exact typed.elim
  | label here => exact typed.elim

end Bound

end ScriptLang
