/-
# ScriptLang.Proofs.Typing -- bound programs in which types fit

Whether an operation gives a value of the type that its rule announces is decided
twice: the rules of operators and conversions look at types, and the operations
look at the values they meet.  The first part shows that the two agree, so that
operands of the right types give a value of the announced type or a fault that
can happen to every program (`Operation.unary_good` and its kin).

The second part says when types fit in a bound expression or statement.  `τ`
gives the type of every number of a variable and `Γ` lists the numbers of the
variables that have a value for sure.
-/
import Mathlib.Data.List.Forall2
import ScriptLang.Bound.Conversion
import ScriptLang.Proofs.Variables
import ScriptLang.Run.Eval

namespace ScriptLang

set_option autoImplicit false

/-! ## Faults of every program -/

/-- Whether a fault can happen to a program whose types fit. -/
def Fault.Ordinary (f : Fault) : Prop :=
  f.kind ∈ [.divisionByZero, .conversion, .argument, .stream]

/-- Whether a result is a value of a type, or a fault that can happen to every program. -/
def Good (ty : Ty) : Except Fault Value → Prop
  | .ok x => x.ty = ty
  | .error f => f.Ordinary

theorem Value.exists_bool {x : Value} (h : x.ty = .bool) : ∃ b, x = .bool b := by
  cases x <;> first | exact ⟨_, rfl⟩ | cases h

theorem Value.exists_int {x : Value} (h : x.ty = .int) : ∃ n, x = .int n := by
  cases x <;> first | exact ⟨_, rfl⟩ | cases h

theorem Value.exists_float {x : Value} (h : x.ty = .float) : ∃ y, x = .float y := by
  cases x <;> first | exact ⟨_, rfl⟩ | cases h

/-! ## Operations -/

namespace Operation

open ScriptLang.Bound (UnaryRule BinaryRule Conversion)

theorem unary_good {op : UnaryOp} {x : Value} {rule : UnaryRule} (plain : op.isStep = false)
    (found : UnaryRule.find? op x.ty = some rule) : Good rule.result (unary op x) := by
  unfold UnaryRule.find? at found
  split at found
  · rename_i listed
    cases found
    cases op <;> cases x <;> simp_all [UnaryRule.operands, Value.ty, UnaryOp.isStep, unary, Good]
  · cases found

theorem onInts_good {op : BinaryOp} {ty : Ty} (found : BinaryRule.result? op .int .int = some ty)
    (l r : Int64) : Good ty (onInts op l r) := by
  have divided : ∀ x : Int64, Good .int (if r = 0 then .error .divisionByZero else .ok (.int x)) := by
    intro x
    by_cases zero : r = 0
    · rw [if_pos zero]
      simp [Good, Fault.Ordinary, Fault.kind]
    · rw [if_neg zero]
      rfl
  cases op
  case div => cases found; exact divided (l / r)
  case mod => cases found; exact divided (l % r)
  all_goals cases found
  all_goals rfl

theorem onFloats_good {op : BinaryOp} {ty : Ty}
    (found : BinaryRule.result? op .float .float = some ty) (l r : Float) :
    Good ty (onFloats op l r) := by
  cases op <;> cases found <;> rfl

theorem onFloats_good_of_mixed {op : BinaryOp} {ty : Ty}
    (found : BinaryRule.result? op .int .float = some ty) (l r : Float) :
    Good ty (onFloats op l r) := by
  cases op <;> cases found <;> rfl

theorem onBools_good {op : BinaryOp} {ty : Ty} (found : BinaryRule.result? op .bool .bool = some ty)
    (l r : Bool) : Good ty (onBools op l r) := by
  cases op <;> cases found <;> rfl

theorem shorten_good (s : String) (n : Int64) : Good .string (shorten s n) := by
  unfold shorten
  dsimp only
  split
  · rfl
  · split
    · rfl
    · simp [Good, Fault.Ordinary, Fault.kind]

theorem repeated_good (s : String) (n : Int64) : Good .string (repeated s n) := by
  unfold repeated
  dsimp only
  split
  · simp [Good, Fault.Ordinary, Fault.kind]
  · split
    · rfl
    · simp [Good, Fault.Ordinary, Fault.kind]

/-- A string and something else. -/
theorem binary_good_of_str {op : BinaryOp} {l : String} {r : Value} {ty : Ty}
    (found : BinaryRule.result? op .string r.ty = some ty) : Good ty (binary op (.str l) r) := by
  cases r with
  | int n =>
      cases op <;> cases found
      · rfl
      · exact shorten_good l n
      · exact repeated_good l n
  | bool b =>
      cases op <;> cases found
      rfl
  | float x =>
      cases op <;> cases found
      rfl
  | str s => cases op <;> cases found <;> rfl
  | void => cases found

/-- What is announced for operands of two types comes out of values of these types. -/
theorem binary_good {op : BinaryOp} {l r : Value} {ty : Ty}
    (found : BinaryRule.result? op l.ty r.ty = some ty) : Good ty (binary op l r) := by
  cases l with
  | int l =>
      cases r with
      | int r => exact onInts_good found l r
      | float r => exact onFloats_good_of_mixed found l.toFloat r
      | str r =>
          cases op <;> cases found
          rfl
      | bool r => cases found
      | void => cases found
  | float l =>
      cases r with
      | int r => exact onFloats_good_of_mixed found l r.toFloat
      | float r => exact onFloats_good found l r
      | str r =>
          cases op <;> cases found
          rfl
      | bool r => cases found
      | void => cases found
  | bool l =>
      cases r with
      | bool r => exact onBools_good found l r
      | str r =>
          cases op <;> cases found
          rfl
      | int r => cases found
      | float r => cases found
      | void => cases found
  | str l => exact binary_good_of_str found
  | void => cases r <;> cases found

/-- A conversion that exists between two types works on every value of the first, or the text
cannot be read. -/
theorem convert_good {ty : Ty} {x : Value}
    (possible : Conversion.between x.ty ty = .implicit ∨ Conversion.between x.ty ty = .explicit) :
    Good ty (convert ty x) := by
  have unreadable : ∀ s t, (Fault.unreadable s t).Ordinary := by
    intro s t
    simp [Fault.Ordinary, Fault.kind]
  cases x with
  | str s =>
      cases ty
      case bool => unfold convert; dsimp only; split <;> first | rfl | exact unreadable _ _
      case int => unfold convert; dsimp only; split <;> first | rfl | exact unreadable _ _
      case float => unfold convert; dsimp only; split <;> first | rfl | exact unreadable _ _
      all_goals simp [Conversion.between, Value.ty] at possible
  | bool b => cases ty <;> first | rfl | simp [Conversion.between, Value.ty] at possible
  | int n => cases ty <;> first | rfl | simp [Conversion.between, Value.ty] at possible
  | float y => cases ty <;> first | rfl | simp [Conversion.between, Value.ty] at possible
  | void => cases ty <;> simp [Conversion.between, Value.ty] at possible

end Operation

/-! ## Typed programs -/

namespace Bound

/-- Whether a function takes an argument of a type in the place of a parameter. -/
def Takes (p : Parameter) (ty : Ty) : Prop := p.ty = .any ∨ ty = p.ty

mutual

/-- Whether types fit in an expression. -/
def Expr.Typed (τ : Nat → Ty) (Γ : List Nat) : Expr → Prop
  | .literal _ => True
  | .unary rule operand =>
      operand.Typed τ Γ ∧ rule.op.isStep = false ∧ UnaryRule.find? rule.op operand.ty = some rule
  | .binary left rule right =>
      left.Typed τ Γ ∧ right.Typed τ Γ ∧ BinaryRule.find? rule.op left.ty right.ty = some rule
  | .var v => v.id ∈ Γ ∧ v.ty = τ v.id
  | .assign v value => v.id ∈ Γ ∧ v.ty = τ v.id ∧ value.Typed τ Γ ∧ value.ty = v.ty
  | .call f args =>
      Expr.TypedAll τ Γ args ∧
        ∃ b : Builtin, f = b.function ∧ List.Forall₂ Takes b.parameters (args.map Expr.ty)
  | .convert ty e =>
      e.Typed τ Γ ∧
        (Conversion.between e.ty ty = .implicit ∨ Conversion.between e.ty ty = .explicit)
  | .error => False

def Expr.TypedAll (τ : Nat → Ty) (Γ : List Nat) : List Expr → Prop
  | [] => True
  | e :: es => e.Typed τ Γ ∧ Expr.TypedAll τ Γ es

end

/-- The variables that a statement leaves to the statements after it. -/
def Stmt.leaves : Stmt → List Variable
  | .declare v _ => [v]
  | _ => []

/-- The variables that statements leave to what comes after them. -/
def leavesOf (body : List Stmt) : List Variable := body.flatMap Stmt.leaves

/-- Whether an expression has a type, and types fit in it. -/
def Expr.HasType (τ : Nat → Ty) (Γ : List Nat) (e : Expr) (ty : Ty) : Prop :=
  e.Typed τ Γ ∧ e.ty = ty

mutual

/-- Whether types fit in a statement without jumps. -/
def Stmt.Typed (τ : Nat → Ty) : List Nat → Stmt → Prop
  | Γ, .block body => Stmt.TypedAll τ Γ body
  | Γ, .declare v init => init.HasType τ Γ v.ty ∧ v.ty = τ v.id
  | Γ, .ifThen test yes => test.HasType τ Γ .bool ∧ yes.Typed τ Γ
  | Γ, .ifElse test yes no => test.HasType τ Γ .bool ∧ yes.Typed τ Γ ∧ no.Typed τ Γ
  | Γ, .whileLoop test body => test.HasType τ Γ .bool ∧ body.Typed τ Γ
  | Γ, .doWhile body test => body.Typed τ Γ ∧ test.HasType τ Γ .bool
  | Γ, .forTo v lower upper body =>
      lower.HasType τ Γ .int ∧ upper.HasType τ Γ .int ∧ v.ty = .int ∧ v.ty = τ v.id ∧
        body.Typed τ (v.id :: Γ)
  | Γ, .expr e => e.Typed τ Γ
  | _, .goto _ | _, .branch .. | _, .label _ => False

/-- Whether types fit in statements one after the other. -/
def Stmt.TypedAll (τ : Nat → Ty) : List Nat → List Stmt → Prop
  | _, [] => True
  | Γ, s :: ss => s.Typed τ Γ ∧ Stmt.TypedAll τ (s.leaves.map (·.id) ++ Γ) ss

end

theorem Expr.typedAll_iff {τ : Nat → Ty} {Γ : List Nat} {args : List Expr} :
    Expr.TypedAll τ Γ args ↔ ∀ e ∈ args, e.Typed τ Γ := by
  induction args with
  | nil => simp [Expr.TypedAll]
  | cons e es ih => simp [Expr.TypedAll, ih]

/-- More variables that have a value do no harm. -/
theorem Expr.Typed.weaken {τ : Nat → Ty} {Γ Δ : List Nat} (sub : Γ ⊆ Δ) {e : Expr}
    (typed : e.Typed τ Γ) : e.Typed τ Δ := by
  induction e using Expr.induction with
  | literal value => trivial
  | unary rule operand ih => exact ⟨ih typed.1, typed.2⟩
  | binary left rule right ihLeft ihRight =>
      exact ⟨ihLeft typed.1, ihRight typed.2.1, typed.2.2⟩
  | var v => exact ⟨sub typed.1, typed.2⟩
  | assign v value ih => exact ⟨sub typed.1, typed.2.1, ih typed.2.2.1, typed.2.2.2⟩
  | call f args ih =>
      obtain ⟨each, known⟩ := typed
      rw [Expr.typedAll_iff] at each
      exact ⟨Expr.typedAll_iff.2 fun e member => ih e member (each e member), known⟩
  | convert ty e ih => exact ⟨ih typed.1, typed.2⟩
  | error => exact typed

theorem Expr.HasType.weaken {τ : Nat → Ty} {Γ Δ : List Nat} (sub : Γ ⊆ Δ) {e : Expr} {ty : Ty}
    (typed : e.HasType τ Γ ty) : e.HasType τ Δ ty :=
  ⟨typed.1.weaken sub, typed.2⟩

theorem Stmt.typedAll_weaken {τ : Nat → Ty} {body : List Stmt}
    (each : ∀ s ∈ body, ∀ Γ Δ, Γ ⊆ Δ → s.Typed τ Γ → s.Typed τ Δ) {Γ Δ : List Nat} (sub : Γ ⊆ Δ)
    (typed : Stmt.TypedAll τ Γ body) : Stmt.TypedAll τ Δ body := by
  induction body generalizing Γ Δ with
  | nil => trivial
  | cons s ss ih =>
      refine ⟨each s List.mem_cons_self Γ Δ sub typed.1, ?_⟩
      exact ih (fun s member => each s (List.mem_cons_of_mem _ member))
        (List.append_subset.2 ⟨List.subset_append_left _ _,
          List.Subset.trans sub (List.subset_append_right _ _)⟩) typed.2

theorem Stmt.Typed.weaken {τ : Nat → Ty} {s : Stmt} (Γ Δ : List Nat) (sub : Γ ⊆ Δ)
    (typed : s.Typed τ Γ) : s.Typed τ Δ := by
  induction s using Stmt.induction generalizing Γ Δ with
  | block body ih => exact Stmt.typedAll_weaken ih sub typed
  | declare v init => exact ⟨typed.1.weaken sub, typed.2⟩
  | expr e => exact Expr.Typed.weaken sub typed
  | ifThen test yes ih => exact ⟨typed.1.weaken sub, ih Γ Δ sub typed.2⟩
  | ifElse test yes no ihYes ihNo =>
      exact ⟨typed.1.weaken sub, ihYes Γ Δ sub typed.2.1, ihNo Γ Δ sub typed.2.2⟩
  | whileLoop test body ih => exact ⟨typed.1.weaken sub, ih Γ Δ sub typed.2⟩
  | doWhile body test ih => exact ⟨ih Γ Δ sub typed.1, typed.2.weaken sub⟩
  | forTo v lower upper body ih =>
      obtain ⟨typedLower, typedUpper, tyVar, fitsVar, typedBody⟩ := typed
      exact ⟨typedLower.weaken sub, typedUpper.weaken sub, tyVar, fitsVar,
        ih _ _ (List.cons_subset_cons _ sub) typedBody⟩
  | goto target => exact typed
  | branch target test when => exact typed
  | label here => exact typed

/-! ## Where the variables come from -/

/-- The variables that a statement leaves are declared by it. -/
theorem Stmt.leaves_sublist (s : Stmt) : s.leaves.Sublist s.declared := by
  cases s with
  | declare v init => exact .refl _
  | _ => exact List.nil_sublist _

theorem leavesOf_sublist (body : List Stmt) : (leavesOf body).Sublist (Stmt.declaredIn body) := by
  induction body with
  | nil => exact .refl _
  | cons s ss ih => exact (Stmt.leaves_sublist s).append ih

/-- What statements leave, the first of them leaves to the others, or they leave it themselves. -/
theorem leavesOf_cons_subset (s : Stmt) (ss : List Stmt) (Γ : List Nat) :
    (leavesOf (s :: ss)).map (·.id) ++ Γ ⊆
      (leavesOf ss).map (·.id) ++ (s.leaves.map (·.id) ++ Γ) := by
  intro id member
  simp only [leavesOf, List.flatMap_cons, List.map_append, List.mem_append] at member ⊢
  rcases member with (first | rest) | before
  · exact .inr (.inl first)
  · exact .inl rest
  · exact .inr (.inr before)

theorem Expr.Typed.ids {τ : Nat → Ty} {Γ : List Nat} {e : Expr} (typed : e.Typed τ Γ) :
    ∀ v ∈ e.vars, v.id ∈ Γ := by
  induction e using Expr.induction with
  | literal value => exact fun _ member => nomatch member
  | unary rule operand ih => exact ih typed.1
  | binary left rule right ihLeft ihRight =>
      exact List.forall_mem_append.2 ⟨ihLeft typed.1, ihRight typed.2.1⟩
  | var u =>
      intro v member
      rw [List.mem_singleton.1 member]
      exact typed.1
  | assign u value ih => exact List.forall_mem_cons.2 ⟨typed.1, ih typed.2.2.1⟩
  | call f args ih =>
      intro v member
      obtain ⟨e, inside, there⟩ := Expr.mem_varsOf.1 member
      exact ih e inside (Expr.typedAll_iff.1 typed.1 e inside) v there
  | convert ty e ih => exact ih typed.1
  | error => exact typed.elim

theorem Stmt.typedAll_ids {τ : Nat → Ty} {P : Nat → Prop} {body : List Stmt}
    (each : ∀ s ∈ body, ∀ Γ, s.Typed τ Γ → (∀ id ∈ Γ, P id) → (∀ v ∈ s.declared, P v.id) →
      ∀ v ∈ s.vars, P v.id) {Γ : List Nat} (typed : Stmt.TypedAll τ Γ body) (old : ∀ id ∈ Γ, P id)
    (new : ∀ v ∈ Stmt.declaredIn body, P v.id) : ∀ v ∈ Stmt.varsOf body, P v.id := by
  induction body generalizing Γ with
  | nil => exact fun _ member => nomatch member
  | cons s ss ih =>
      rw [List.forall_mem_cons] at each
      obtain ⟨newHere, newThere⟩ := List.forall_mem_append.1 new
      have left : ∀ id ∈ s.leaves.map (·.id), P id :=
        List.forall_mem_map.2 fun v leaves => newHere v ((leaves_sublist s).subset leaves)
      exact List.forall_mem_append.2 ⟨each.1 Γ typed.1 old newHere,
        ih each.2 typed.2 (List.forall_mem_append.2 ⟨left, old⟩) newThere⟩

/-- A statement in which types fit uses variables that have values before it, and its own. -/
theorem Stmt.Typed.ids {τ : Nat → Ty} {P : Nat → Prop} {s : Stmt} (Γ : List Nat)
    (typed : s.Typed τ Γ) (old : ∀ id ∈ Γ, P id) (new : ∀ v ∈ s.declared, P v.id) :
    ∀ v ∈ s.vars, P v.id := by
  have before : ∀ {e : Expr}, e.Typed τ Γ → ∀ v ∈ e.vars, P v.id :=
    fun typed v member => old v.id (typed.ids v member)
  induction s using Stmt.induction generalizing Γ with
  | block body ih =>
      refine Stmt.typedAll_ids ?_ typed old new
      intro s member Γ typed old new
      exact ih s member Γ typed old new fun typed v member => old v.id (typed.ids v member)
  | declare u init => exact List.forall_mem_cons.2 ⟨new u List.mem_cons_self, before typed.1.1⟩
  | expr e => exact before typed
  | ifThen test yes ih =>
      exact List.forall_mem_append.2 ⟨before typed.1.1, ih Γ typed.2 old new before⟩
  | ifElse test yes no ihYes ihNo =>
      obtain ⟨newYes, newNo⟩ := List.forall_mem_append.1 new
      have first := List.forall_mem_append.2
        ⟨before typed.1.1, ihYes Γ typed.2.1 old newYes before⟩
      exact List.forall_mem_append.2 ⟨first, ihNo Γ typed.2.2 old newNo before⟩
  | whileLoop test body ih =>
      exact List.forall_mem_append.2 ⟨before typed.1.1, ih Γ typed.2 old new before⟩
  | doWhile body test ih =>
      exact List.forall_mem_append.2 ⟨ih Γ typed.1 old new before, before typed.2.1⟩
  | forTo u lower upper body ih =>
      obtain ⟨typedLower, typedUpper, -, -, typedBody⟩ := typed
      obtain ⟨newVar, newBody⟩ := List.forall_mem_cons.1 new
      have inside : ∀ id ∈ u.id :: Γ, P id := List.forall_mem_cons.2 ⟨newVar, old⟩
      have bounds := List.forall_mem_append.2 ⟨before typedLower.1, before typedUpper.1⟩
      have inBody := ih _ typedBody inside newBody
        fun typed v member => inside v.id (typed.ids v member)
      exact List.forall_mem_cons.2 ⟨newVar, List.forall_mem_append.2 ⟨bounds, inBody⟩⟩
  | goto target => exact typed.elim
  | branch target test when => exact typed.elim
  | label here => exact typed.elim

end Bound

end ScriptLang
