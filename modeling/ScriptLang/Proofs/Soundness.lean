/-
# ScriptLang.Proofs.Soundness -- expressions in which types fit do not go wrong

An expression in which types fit gives a value of its type, or a fault that can
happen to every program, and variables that have a value of their type keep one
(`Expr.eval_sound`).  The same holds for every part of it that is evaluated on
the way (`Expr.Visits`).
-/
import ScriptLang.Proofs.Structured
import ScriptLang.Proofs.Typing

namespace ScriptLang

set_option autoImplicit false

/-! ## Variables that have values of their types -/

namespace Store

/-- Whether the variable of a number has a value of its type. -/
def Fits (τ : Nat → Ty) (s : Store) (id : Nat) : Prop := ∃ x, s.get? id = some x ∧ x.ty = τ id

/-- Whether some variables have values of their types. -/
def FitsAll (τ : Nat → Ty) (s : Store) (Γ : List Nat) : Prop := ∀ id ∈ Γ, s.Fits τ id

/-- Whether the variables that have a value of their type in a store have one in another. -/
def Keeps (τ : Nat → Ty) (s t : Store) : Prop := ∀ id, s.Fits τ id → t.Fits τ id

variable {τ : Nat → Ty} {s t u : Store}

theorem Keeps.refl (s : Store) : s.Keeps τ s := fun _ fits => fits

theorem Keeps.trans (first : s.Keeps τ t) (second : t.Keeps τ u) : s.Keeps τ u :=
  fun id fits => second id (first id fits)

theorem Keeps.fitsAll (keeps : s.Keeps τ t) {Γ : List Nat} (fits : s.FitsAll τ Γ) :
    t.FitsAll τ Γ :=
  fun id member => keeps id (fits id member)

theorem keeps_of_get? {id : Nat} {x : Value} (right : x.ty = τ id)
    (get : ∀ i, t.get? i = if i = id then some x else s.get? i) : s.Keeps τ t := by
  intro i fits
  by_cases same : i = id
  · subst same
    exact ⟨x, by rw [get, if_pos rfl], right⟩
  · obtain ⟨y, stored, ty⟩ := fits
    exact ⟨y, by rw [get, if_neg same, stored], ty⟩

theorem keeps_assign? {id : Nat} {x : Value} (right : x.ty = τ id)
    (assigned : s.assign? id x = some t) : s.Keeps τ t :=
  keeps_of_get? right (get?_assign? assigned)

theorem keeps_upsert {v : Variable} {x : Value} (right : x.ty = τ v.id) :
    s.Keeps τ (s.upsert v x) :=
  keeps_of_get? right (get?_upsert s v x)

theorem fits_upsert {v : Variable} {x : Value} (right : x.ty = τ v.id) :
    (s.upsert v x).Fits τ v.id :=
  ⟨x, by rw [get?_upsert, if_pos rfl], right⟩

end Store

/-- Whether an outcome is sound after a store: variables keep having values of their types, and
there is a value that is as it should be, or a fault that can happen to every program. -/
structure Outcome.Sound {α : Type} (τ : Nat → Ty) (s : Store) (Q : α → Prop) (o : Outcome α) :
    Prop where
  keeps : s.Keeps τ o.2.store
  value : ∀ a, o.1 = .ok a → Q a
  fault : ∀ f, o.1 = .error f → f.Ordinary

namespace Outcome.Sound

variable {τ : Nat → Ty} {α β : Type} {Q : α → Prop} {R : β → Prop}

theorem ok {a : α} {w : World} (right : Q a) : Outcome.Sound τ w.store Q (.ok a, w) where
  keeps := .refl _
  value := by rintro a ⟨⟩; exact right
  fault := by rintro f ⟨⟩

theorem error {f : Fault} {s : Store} {w : World} (same : w.store = s) (ordinary : f.Ordinary) :
    Outcome.Sound τ s Q (.error f, w) where
  keeps := by rw [same]; exact .refl _
  value := by rintro a ⟨⟩
  fault := by rintro f ⟨⟩; exact ordinary

theorem of_good {ty : Ty} {result : Except Fault Value} {w : World} (good : Good ty result) :
    Outcome.Sound τ w.store (fun x => x.ty = ty) (result, w) where
  keeps := .refl _
  value := by rintro x rfl; exact good
  fault := by rintro f rfl; exact good

theorem andThen {s : Store} {o : Outcome α} {f : α → World → Outcome β} (sound : o.Sound τ s Q)
    (next : ∀ a w, s.Keeps τ w.store → Q a → (f a w).Sound τ w.store R) :
    (o.andThen f).Sound τ s R := by
  obtain ⟨result, w⟩ := o
  cases result with
  | ok a =>
      have after := next a w sound.keeps (sound.value a rfl)
      exact { after with keeps := sound.keeps.trans after.keeps }
  | error f =>
      exact { keeps := sound.keeps, value := by rintro a ⟨⟩,
              fault := by rintro f ⟨⟩; exact sound.fault f rfl }

end Outcome.Sound

/-! ## Functions -/

theorem World.write_sound {τ : Nat → Ty} (w : World) (text : String) :
    (w.write text).Sound τ w.store fun _ => True := by
  unfold World.write
  split
  · exact { keeps := .refl _, value := by intros; trivial, fault := by rintro f ⟨⟩ }
  · exact .error rfl (by simp [Fault.Ordinary, Fault.kind])

theorem World.readLine_sound {τ : Nat → Ty} (w : World) :
    w.readLine.Sound τ w.store fun _ => True := by
  unfold World.readLine World.takeLine
  dsimp only
  split
  · exact { keeps := .refl _, value := by intros; trivial, fault := by rintro f ⟨⟩ }
  · exact .error rfl (by simp [Fault.Ordinary, Fault.kind])

namespace Builtin

variable {τ : Nat → Ty} {w : World}

theorem runPrint_sound (name ending : String) (x : Value) :
    (runPrint name ending [x] w).Sound τ w.store fun y => y.ty = .void :=
  (w.write_sound _).andThen fun _ _ _ _ => .ok rfl

theorem runRandomInt_sound (name : String) (max : Int64) :
    (runRandomInt name [.int max] w).Sound τ w.store fun y => y.ty = .int := by
  unfold runRandomInt
  dsimp only
  split
  · exact .error rfl (by simp [Fault.Ordinary, Fault.kind])
  · exact { keeps := .refl _, value := by rintro x ⟨⟩; rfl, fault := by rintro f ⟨⟩ }

theorem runRandomFloat_sound (name : String) (max : Float) :
    (runRandomFloat name [.float max] w).Sound τ w.store fun y => y.ty = .float :=
  { keeps := .refl _, value := by rintro x ⟨⟩; rfl, fault := by rintro f ⟨⟩ }

/-- A builtin with arguments of the types that it takes gives a value of its result type. -/
theorem run_sound (b : Builtin) (name : String) {xs : List Value}
    (takes : List.Forall₂ Bound.Takes b.parameters (xs.map Value.ty)) :
    (b.run name xs w).Sound τ w.store fun y => y.ty = b.result := by
  -- every builtin but `input` takes one argument
  have one : ∀ p, List.Forall₂ Bound.Takes [p] (xs.map Value.ty) →
      ∃ x, xs = [x] ∧ (p.ty = .any ∨ x.ty = p.ty) := by
    intro p takes
    obtain ⟨ty, types, here, rest, same⟩ := List.forall₂_cons_left_iff.1 takes
    cases rest
    obtain ⟨x, rfl, rfl⟩ := List.map_eq_singleton_iff.1 same
    exact ⟨x, rfl, here⟩
  cases b with
  | print =>
      obtain ⟨x, rfl, -⟩ := one _ takes
      exact runPrint_sound name "" x
  | println =>
      obtain ⟨x, rfl, -⟩ := one _ takes
      exact runPrint_sound name "\n" x
  | input => exact w.readLine_sound.andThen fun _ _ _ _ => .ok rfl
  | stringify =>
      obtain ⟨x, rfl, -⟩ := one _ takes
      exact .ok rfl
  | randomInt =>
      obtain ⟨x, rfl, here⟩ := one _ takes
      obtain ⟨n, rfl⟩ := Value.exists_int (here.resolve_left (by simp))
      exact runRandomInt_sound name n
  | randomFloat =>
      obtain ⟨x, rfl, here⟩ := one _ takes
      obtain ⟨y, rfl⟩ := Value.exists_float (here.resolve_left (by simp))
      exact runRandomFloat_sound name y

end Builtin

/-! ## Expressions -/

namespace Bound

variable {τ : Nat → Ty} {Γ : List Nat}

theorem Expr.evalAll_sound {args : List Expr}
    (each : ∀ e ∈ args, ∀ w : World, w.store.FitsAll τ Γ →
      (e.eval w).Sound τ w.store fun x => x.ty = e.ty)
    {w : World} (fits : w.store.FitsAll τ Γ) :
    (Expr.evalAll args w).Sound τ w.store fun xs => xs.map Value.ty = args.map Expr.ty := by
  induction args generalizing w with
  | nil => exact .ok rfl
  | cons e es ih =>
      rw [Expr.evalAll]
      apply (each e List.mem_cons_self w fits).andThen
      intro x w keeps first
      have rest := ih (fun e member => each e (List.mem_cons_of_mem _ member)) (keeps.fitsAll fits)
      refine rest.andThen fun xs w _ types => .ok ?_
      rw [List.map_cons, List.map_cons, first, types]

/-- An expression in which types fit gives a value of its type, or a fault that can happen to every
program. -/
theorem Expr.eval_sound (e : Expr) (typed : e.Typed τ Γ) (w : World) (fits : w.store.FitsAll τ Γ) :
    (e.eval w).Sound τ w.store fun x => x.ty = e.ty := by
  induction e using Expr.induction generalizing w with
  | literal value => exact .ok rfl
  | unary rule operand ih =>
      obtain ⟨inner, plain, found⟩ := typed
      rw [Expr.eval]
      refine (ih inner w fits).andThen fun x w _ ty => .of_good ?_
      exact Operation.unary_good plain (by rw [ty]; exact found)
  | binary left rule right ihLeft ihRight =>
      obtain ⟨typedLeft, typedRight, found⟩ := typed
      have announced : BinaryRule.result? rule.op left.ty right.ty = some rule.result := by
        obtain ⟨result, given, same⟩ := Option.map_eq_some_iff.1 found
        rw [given, ← same]
      rw [Expr.eval]
      apply (ihLeft typedLeft w fits).andThen
      intro l w keeps tyLeft
      refine (ihRight typedRight w (keeps.fitsAll fits)).andThen fun r w _ tyRight => .of_good ?_
      exact Operation.binary_good (by rw [tyLeft, tyRight]; exact announced)
  | var v =>
      obtain ⟨x, stored, ty⟩ := fits v.id typed.1
      rw [Expr.eval, stored]
      exact .ok (ty.trans typed.2.symm)
  | assign v value ih =>
      obtain ⟨member, tyVar, inner, tyValue⟩ := typed
      rw [Expr.eval]
      apply (ih inner w fits).andThen
      intro x w keeps ty
      have right : x.ty = τ v.id := by rw [ty, tyValue, tyVar]
      cases assigned : w.store.assign? v.id x with
      | some t =>
          exact { keeps := Store.keeps_assign? right assigned, value := by rintro y ⟨⟩; exact ty,
                  fault := by rintro f ⟨⟩ }
      | none =>
          obtain ⟨y, stored, -⟩ := keeps v.id (fits v.id member)
          rw [Store.assign?_eq_none_iff.1 assigned] at stored
          cases stored
  | call f args ih =>
      obtain ⟨typedArgs, b, rfl, takes⟩ := typed
      rw [Expr.typedAll_iff] at typedArgs
      rw [Expr.eval]
      have sound := Expr.evalAll_sound (fun e member => ih e member (typedArgs e member)) fits
      apply sound.andThen
      intro xs w _ types
      exact b.run_sound _ (by rw [types]; exact takes)
  | convert ty e ih =>
      obtain ⟨inner, possible⟩ := typed
      rw [Expr.eval]
      refine (ih inner w fits).andThen fun x w _ tyx => .of_good ?_
      exact Operation.convert_good (by rw [tyx]; exact possible)
  | error => exact typed.elim

/-- Whether evaluating an expression in a world gives a part of it a value on the way. -/
inductive Expr.Visits : Expr → World → Expr → Value → Prop where
  | whole {e : Expr} {w w' : World} {x : Value} (gives : e.eval w = (.ok x, w')) : Visits e w e x
  | operand {rule : UnaryRule} {e part : Expr} {w : World} {x : Value} (h : Visits e w part x) :
      Visits (.unary rule e) w part x
  | left {rule : BinaryRule} {left right part : Expr} {w : World} {x : Value}
      (h : Visits left w part x) : Visits (.binary left rule right) w part x
  | right {rule : BinaryRule} {left right part : Expr} {w w' : World} {l x : Value}
      (before : left.eval w = (.ok l, w')) (h : Visits right w' part x) :
      Visits (.binary left rule right) w part x
  | assigned {v : Variable} {e part : Expr} {w : World} {x : Value} (h : Visits e w part x) :
      Visits (.assign v e) w part x
  | argument {f : Function} {before after : List Expr} {e part : Expr} {w w' : World}
      {xs : List Value} {x : Value} (first : Expr.evalAll before w = (.ok xs, w'))
      (h : Visits e w' part x) : Visits (.call f (before ++ e :: after)) w part x
  | converted {ty : Ty} {e part : Expr} {w : World} {x : Value} (h : Visits e w part x) :
      Visits (.convert ty e) w part x

/-- Every part that is evaluated gives a value of its type. -/
theorem Expr.Visits.ty_eq {e part : Expr} {w : World} {x : Value} (visits : e.Visits w part x)
    (typed : e.Typed τ Γ) (fits : w.store.FitsAll τ Γ) : x.ty = part.ty := by
  induction visits with
  | whole gives =>
      have sound := Expr.eval_sound _ typed _ fits
      rw [gives] at sound
      exact sound.value _ rfl
  | operand _ ih => exact ih typed.1 fits
  | left _ ih => exact ih typed.1 fits
  | right before _ ih =>
      have sound := Expr.eval_sound _ typed.1 _ fits
      rw [before] at sound
      exact ih typed.2.1 (sound.keeps.fitsAll fits)
  | assigned _ ih => exact ih typed.2.2.1 fits
  | argument first _ ih =>
      have each := Expr.typedAll_iff.1 typed.1
      have sound := Expr.evalAll_sound (Γ := Γ)
        (fun e member => e.eval_sound (each e (List.mem_append.2 (.inl member)))) fits
      rw [first] at sound
      exact ih (each _ (by simp)) (sound.keeps.fitsAll fits)
  | converted _ ih => exact ih typed.1 fits

end Bound

end ScriptLang
