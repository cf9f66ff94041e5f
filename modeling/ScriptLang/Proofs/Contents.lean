/-
# ScriptLang.Proofs.Contents -- what a flat program is made of

A program that was lowered from a statement without jumps has no blocks, branches
and loops left.  Its labels are numbered from one, each number once, and every
jump goes to one of them (`Lowered.WellFormed`).

`parts` lists what a statement evaluates and what for: first values of variables,
expression statements and tests.  Lowering keeps all of it, each expression once,
and adds three parts for each `for` (`loopParts`): the upper bound is kept as the
first value of a hidden variable, and the loop variable is compared with that
variable and moved on.  Hidden variables are numbered one after the other from the
counter on, innermost loop first (`Stmt.parts_code`), so none of them is another
one or a variable of the statement.
-/
import Mathlib.Data.List.Perm.Basic
import ScriptLang.Proofs.Counting
import ScriptLang.Proofs.Refusals

namespace ScriptLang.Bound

set_option autoImplicit false

/-! ## Flat statements -/

/-- Whether a statement has no other statements in it. -/
def Stmt.isFlat : Stmt → Bool
  | .declare .. | .expr _ | .goto _ | .branch .. | .label _ => true
  | .block _ | .ifThen .. | .ifElse .. | .whileLoop .. | .doWhile .. | .forTo .. => false

/-- The label that a statement jumps to. -/
def Stmt.target? : Stmt → Option Label
  | .goto target => some target
  | .branch target _ _ => some target
  | _ => none

theorem mem_labelIds {here : Label} {code : List Stmt} :
    here.id ∈ labelIds code ↔ .label here ∈ code := by
  rw [labelIds, List.mem_filterMap]
  constructor
  · rintro ⟨s, member, same⟩
    cases s with
    | label there =>
        obtain rfl : there = here := congrArg Label.mk (Option.some.inj same)
        exact member
    | _ => cases same
  · exact fun member => ⟨_, member, rfl⟩

theorem Stmt.Within.isFlat {L : Nat → Prop} {A D : Variable → Prop} {s : Stmt}
    (within : s.Within L A D) : s.isFlat = true := by
  cases s <;> first | rfl | exact within.elim

theorem Stmt.Within.target {L : Nat → Prop} {A D : Variable → Prop} {s : Stmt}
    (within : s.Within L A D) {target : Label} (jumps : s.target? = some target) : L target.id := by
  cases s with
  | goto _ =>
      cases jumps
      exact within
  | branch _ _ _ =>
      cases jumps
      exact within.1
  | _ => cases jumps

/-! ## What is evaluated -/

/-- An expression, and what it is evaluated for. -/
inductive Part where
  /-- The first value of a variable. -/
  | init (v : Variable) (e : Expr)
  /-- An expression statement. -/
  | value (e : Expr)
  /-- The condition of a branch or a loop. -/
  | test (e : Expr)

mutual

/-- What a statement evaluates, but for the upper bounds of its `for` loops. -/
def Stmt.parts : Stmt → List Part
  | .block body => Stmt.partsIn body
  | .declare v init => [.init v init]
  | .ifThen test yes => .test test :: yes.parts
  | .ifElse test yes no => .test test :: (yes.parts ++ no.parts)
  | .whileLoop test body => .test test :: body.parts
  | .doWhile body test => body.parts ++ [.test test]
  | .forTo v lower _ body => .init v lower :: body.parts
  | .expr e => [.value e]
  | .branch _ test _ => [.test test]
  | .goto _ | .label _ => []

def Stmt.partsIn : List Stmt → List Part
  | [] => []
  | s :: ss => s.parts ++ Stmt.partsIn ss

end

mutual

/-- The variables and upper bounds of the `for` loops of a statement, innermost first. -/
def Stmt.loops : Stmt → List (Variable × Expr)
  | .block body => Stmt.loopsIn body
  | .ifThen _ yes => yes.loops
  | .ifElse _ yes no => yes.loops ++ no.loops
  | .whileLoop _ body => body.loops
  | .doWhile body _ => body.loops
  | .forTo v _ upper body => body.loops ++ [(v, upper)]
  | .declare .. | .expr _ | .goto _ | .branch .. | .label _ => []

def Stmt.loopsIn : List Stmt → List (Variable × Expr)
  | [] => []
  | s :: ss => s.loops ++ Stmt.loopsIn ss

end

/-- What a `for` adds, with the number of its hidden variable: the upper bound is the first value of
that variable, the loop variable is compared with it, and is moved on. -/
def loopParts : (Variable × Expr) × Nat → List Part
  | ((v, upper), id) =>
      [.init (boundVariable id) upper, .test (belowBound v (boundVariable id)),
        .value (increment v)]

/-- What the `for` loops of a list add, with hidden variables numbered from `first`. -/
def allLoopParts (loops : List (Variable × Expr)) (first : Nat) : List Part :=
  (loops.zipIdx first).flatMap loopParts

theorem allLoopParts_append (xs ys : List (Variable × Expr)) (first : Nat) :
    allLoopParts (xs ++ ys) first =
      allLoopParts xs first ++ allLoopParts ys (first + xs.length) := by
  rw [allLoopParts, List.zipIdx_append, List.flatMap_append]
  rfl

/-- Every `for` has one hidden variable. -/
theorem Stmt.length_loops (s : Stmt) : s.loops.length = s.hidden := by
  induction s using Stmt.induction with
  | block body ih =>
      rw [Stmt.loops, Stmt.hidden]
      induction body with
      | nil => rfl
      | cons s ss ihRest =>
          rw [List.forall_mem_cons] at ih
          rw [Stmt.loopsIn, Stmt.hiddenIn, List.length_append, ih.1, ihRest ih.2]
  | ifElse test yes no ihYes ihNo => rw [Stmt.loops, Stmt.hidden, List.length_append, ihYes, ihNo]
  | forTo v lower upper body ih => rw [Stmt.loops, Stmt.hidden, List.length_append, ih]; rfl
  | ifThen test yes ih => exact ih
  | whileLoop test body ih => exact ih
  | doWhile body test ih => exact ih
  | _ => rfl

theorem Stmt.supplyAfter_id_loops (s : Stmt) (supply : Supply) :
    (s.supplyAfter supply).id = supply.id + s.loops.length := by
  rw [s.supplyAfter_id, s.length_loops]

/-! ## Code evaluates the same -/

/-- The parts of two statements, of which the second is lowered after the first. -/
theorem perm_parts_append {code code' parts parts' : List Part}
    {loops loops' : List (Variable × Expr)} {first : Nat}
    (here : code.Perm (parts ++ allLoopParts loops first))
    (there : code'.Perm (parts' ++ allLoopParts loops' (first + loops.length))) :
    (code ++ code').Perm ((parts ++ parts') ++ allLoopParts (loops ++ loops') first) := by
  refine (here.append there).trans ?_
  rw [allLoopParts_append, List.append_assoc, List.append_assoc]
  exact (List.perm_append_comm_assoc _ _ _).append_left parts

theorem partsOf_codeAll {body : List Stmt}
    (each : ∀ s ∈ body, ∀ supply : Supply, ((s.code supply).flatMap Stmt.parts).Perm
      (s.parts ++ allLoopParts s.loops supply.id)) (supply : Supply) :
    ((codeAll body supply).flatMap Stmt.parts).Perm
      (Stmt.partsIn body ++ allLoopParts (Stmt.loopsIn body) supply.id) := by
  induction body generalizing supply with
  | nil => rw [codeAll_nil]; exact .refl _
  | cons s ss ih =>
      rw [List.forall_mem_cons] at each
      have rest := ih each.2 (s.supplyAfter supply)
      rw [s.supplyAfter_id_loops] at rest
      rw [codeAll_cons, List.flatMap_append]
      exact perm_parts_append (each.1 supply) rest

theorem parts_loopCode (label : Nat) (test : Expr) (body : List Stmt) :
    ((loopCode label test body).flatMap Stmt.parts).Perm
      (.test test :: body.flatMap Stmt.parts) := by
  simp only [loopCode, List.flatMap_cons, List.flatMap_append, List.flatMap_nil, Stmt.parts,
    List.nil_append, List.append_nil]
  exact List.perm_append_singleton _ _

/-- The code of a statement evaluates what the statement does, each expression once, and what every
`for` adds. -/
theorem Stmt.parts_code (s : Stmt) (structured : s.isStructured = true) (supply : Supply) :
    ((s.code supply).flatMap Stmt.parts).Perm (s.parts ++ allLoopParts s.loops supply.id) := by
  induction s using Stmt.induction generalizing supply with
  | block body ih =>
      rw [code_block]
      exact partsOf_codeAll
        (fun s member => ih s member (Stmt.areStructured_iff.1 structured s member)) supply
  | declare v init => rw [code_declare]; exact .refl _
  | expr e => rw [code_expr]; exact .refl _
  | ifThen test yes ih =>
      simp only [code_ifThen, List.flatMap_cons, List.flatMap_append, List.flatMap_nil, Stmt.parts,
        List.append_nil]
      exact (ih structured supply).cons _
  | ifElse test yes no ihYes ihNo =>
      simp only [Stmt.isStructured, Bool.and_eq_true] at structured
      have second := ihNo structured.2 (yes.supplyAfter supply)
      rw [yes.supplyAfter_id_loops] at second
      simp only [code_ifElse, List.flatMap_cons, List.flatMap_append, List.flatMap_nil, Stmt.parts,
        List.append_nil, List.nil_append]
      exact (perm_parts_append (ihYes structured.1 supply) second).cons _
  | whileLoop test body ih =>
      rw [code_whileLoop]
      exact (parts_loopCode _ _ _).trans ((ih structured supply).cons _)
  | doWhile body test ih =>
      simp only [code_doWhile, List.flatMap_cons, List.flatMap_append, List.flatMap_nil, Stmt.parts,
        List.append_nil, List.nil_append, Stmt.loops]
      refine ((ih structured supply).append_right _).trans ?_
      rw [List.append_assoc, List.append_assoc]
      exact List.perm_append_comm.append_left _
  | forTo v lower upper body ih =>
      have inner := ih structured supply
      rw [code_forTo]
      dsimp only
      rw [body.supplyAfter_id_loops, Stmt.loops, allLoopParts_append, Stmt.parts]
      refine List.Perm.cons _ (((parts_loopCode _ _ _).cons _).trans ?_)
      rw [List.flatMap_append]
      -- the hidden variable and the test come before the body, the step after it
      refine List.Perm.trans ?_ (.of_eq (List.append_assoc body.parts _ _))
      exact (List.perm_append_comm_assoc [_, _] _ [_]).trans (inner.append_right _)
  | goto target => cases structured
  | branch target test when => cases structured
  | label here => cases structured

/-! ## Well-formed programs -/

/-- Whether a flat program is made of what its statement is made of, with hidden variables that have
some numbers from `nextId` on. -/
structure Lowered.WellFormed (s : Stmt) (nextId : Nat) (hidden : List Nat) (l : Lowered) :
    Prop where
  flat : ∀ st ∈ l.program, st.isFlat = true
  /-- The labels are those from one up to their count, each once. -/
  labels : (labelIds l.program).Perm (List.range' 1 l.labels)
  targets : ∀ st ∈ l.program, ∀ target, st.target? = some target → .label target ∈ l.program
  distinct : hidden.Nodup
  fresh : ∀ id ∈ hidden, nextId ≤ id
  perLoop : hidden.length = s.loops.length
  /-- Every expression of the statement is there once, and what each `for` adds. -/
  parts : (l.program.flatMap Stmt.parts).Perm (s.parts ++ (s.loops.zip hidden).flatMap loopParts)

/-- Lowering a statement without jumps gives a well-formed program; the hidden variables are
numbered one after the other. -/
theorem lower_wellFormed (s : Stmt) (structured : s.isStructured = true) (nextId : Nat) :
    (lower s nextId).WellFormed s nextId (List.range' nextId s.loops.length) := by
  have within := s.code_within structured ⟨1, nextId⟩
  rw [← lower_program] at within
  have labels := labelIds_code s structured ⟨1, nextId⟩
  rw [← lower_program] at labels
  have parts := s.parts_code structured ⟨1, nextId⟩
  rw [← lower_program, allLoopParts, List.zipIdx_eq_zip_range'] at parts
  exact {
    flat := fun st member => (within st member).isFlat
    labels := labels
    targets := fun st member target jumps => mem_labelIds.1 ((within st member).target jumps)
    distinct := List.nodup_range'
    fresh := fun id member => (List.mem_range'_1.1 member).1
    perLoop := List.length_range'
    parts := parts }

/-- A counting loop around a branch with another counting loop, and a loop that is tested at its
end. -/
def branchedLoops : Stmt :=
  let n : Variable := ⟨0, "n", .int, true, none⟩
  let i : Variable := ⟨1, "i", .int, false, none⟩
  let j : Variable := ⟨2, "j", .int, false, none⟩
  let isPositive : Expr := .binary (.var n) ⟨.gt, .int, .int, .bool⟩ (.literal (.int 0))
  .block [.declare n (.literal (.int 3)),
    .forTo i (.literal (.int 0)) (.var n)
      (.ifElse isPositive
        (.forTo j (.var i) (.var n) (.expr (.call Builtin.print.function [.var j])))
        (.expr (.assign n (.literal (.int 1))))),
    .doWhile (.expr (increment n)) isPositive]

/-- The two counting loops have hidden variables of their own, the inner one the first. -/
theorem branchedLoops_wellFormed :
    branchedLoops.isStructured = true ∧ (lower branchedLoops 3).WellFormed branchedLoops 3 [3, 4] :=
  ⟨by decide, lower_wellFormed branchedLoops (by decide) 3⟩

end ScriptLang.Bound
