/-
# ScriptLang.Proofs.FlatCode -- the code of a lowered statement

`Stmt.code` is the flat code that lowering and flattening make of one statement.
Flattening a list is flattening its parts (`flattenAll_append`), so the code of a
statement is the code of its parts with jumps and labels around them: one
equation for each kind of statement.

A statement takes its labels from an interval of the supply, each once
(`labelIds_code`), so no two labels of a program are the same.
-/
import ScriptLang.Proofs.Variables

namespace ScriptLang.Bound

set_option autoImplicit false

/-! ## Flattening -/

theorem flattenAll_append (xs ys : List Stmt) :
    flattenAll (xs ++ ys) = flattenAll xs ++ flattenAll ys := by
  fun_induction flattenAll xs with
  | case1 => rfl
  | case2 body rest ih => rw [List.cons_append, flattenAll, ← ih, List.append_assoc]
  | case3 s rest notBlock ih =>
      rw [List.cons_append, flattenAll, ih, List.cons_append]
      exact notBlock

theorem flattenAll_cons (s : Stmt) (rest : List Stmt) :
    flattenAll (s :: rest) = flatten s ++ flattenAll rest :=
  flattenAll_append [s] rest

theorem flatten_block (body : List Stmt) : flatten (.block body) = flattenAll body := by
  rw [flatten, flattenAll, List.append_nil]

/-- A statement that is no block stands for itself. -/
theorem flatten_of_not_block {s : Stmt} (h : ∀ body, s = .block body → False) :
    flatten s = [s] := by
  rw [flatten, flattenAll, flattenAll_nil]
  exact h

/-! ## The code of a statement -/

/-- The flat code of a statement. -/
def Stmt.code (s : Stmt) (supply : Supply) : List Stmt := flatten (lowerStmt s supply).1

/-- The flat code of statements one after the other. -/
def codeAll (body : List Stmt) (supply : Supply) : List Stmt :=
  flattenAll (lowerStmts body supply).1

/-- What is left of the supply after a statement. -/
def Stmt.supplyAfter (s : Stmt) (supply : Supply) : Supply := (lowerStmt s supply).2

def supplyAfterAll (body : List Stmt) (supply : Supply) : Supply := (lowerStmts body supply).2

theorem code_block (body : List Stmt) (supply : Supply) :
    (Stmt.block body).code supply = codeAll body supply := by
  rw [Stmt.code, lowerStmt_block, flatten_block, codeAll]

theorem supplyAfter_block (body : List Stmt) (supply : Supply) :
    (Stmt.block body).supplyAfter supply = supplyAfterAll body supply := by
  rw [Stmt.supplyAfter, lowerStmt_block, supplyAfterAll]

theorem codeAll_nil (supply : Supply) : codeAll [] supply = [] := by
  rw [codeAll, lowerStmts_nil, flattenAll_nil]

theorem supplyAfterAll_nil (supply : Supply) : supplyAfterAll [] supply = supply := by
  rw [supplyAfterAll, lowerStmts_nil]

theorem codeAll_cons (s : Stmt) (ss : List Stmt) (supply : Supply) :
    codeAll (s :: ss) supply = s.code supply ++ codeAll ss (s.supplyAfter supply) := by
  rw [codeAll, lowerStmts, flattenAll_cons, Stmt.code, codeAll, Stmt.supplyAfter]

theorem supplyAfterAll_cons (s : Stmt) (ss : List Stmt) (supply : Supply) :
    supplyAfterAll (s :: ss) supply = supplyAfterAll ss (s.supplyAfter supply) := by
  rw [supplyAfterAll, lowerStmts, Stmt.supplyAfter, supplyAfterAll]

theorem code_declare (v : Variable) (init : Expr) (supply : Supply) :
    (Stmt.declare v init).code supply = [.declare v init] := by
  simp [Stmt.code, lowerStmt, flatten_of_not_block]

theorem code_expr (e : Expr) (supply : Supply) : (Stmt.expr e).code supply = [.expr e] := by
  simp [Stmt.code, lowerStmt, flatten_of_not_block]

theorem supplyAfter_declare (v : Variable) (init : Expr) (supply : Supply) :
    (Stmt.declare v init).supplyAfter supply = supply := by
  simp [Stmt.supplyAfter, lowerStmt]

theorem supplyAfter_expr (e : Expr) (supply : Supply) :
    (Stmt.expr e).supplyAfter supply = supply := by
  simp [Stmt.supplyAfter, lowerStmt]

theorem code_ifThen (test : Expr) (yes : Stmt) (supply : Supply) :
    (Stmt.ifThen test yes).code supply =
      .branch ⟨(yes.supplyAfter supply).label⟩ test false ::
        (yes.code supply ++ [.label ⟨(yes.supplyAfter supply).label⟩]) := by
  simp [Stmt.code, Stmt.supplyAfter, lowerStmt, flatten_block, flattenAll_cons, flattenAll_nil,
    flatten_of_not_block]

theorem supplyAfter_ifThen (test : Expr) (yes : Stmt) (supply : Supply) :
    (Stmt.ifThen test yes).supplyAfter supply =
      ⟨(yes.supplyAfter supply).label + 1, (yes.supplyAfter supply).id⟩ := by
  simp [Stmt.supplyAfter, lowerStmt]

theorem code_ifElse (test : Expr) (yes no : Stmt) (supply : Supply) :
    (Stmt.ifElse test yes no).code supply =
      let between := yes.supplyAfter supply
      let after := no.supplyAfter between
      .branch ⟨after.label⟩ test false ::
        (yes.code supply ++ (.goto ⟨after.label + 1⟩ :: .label ⟨after.label⟩ ::
          (no.code between ++ [.label ⟨after.label + 1⟩]))) := by
  simp [Stmt.code, Stmt.supplyAfter, lowerStmt, flatten_block, flattenAll_cons, flattenAll_nil,
    flatten_of_not_block]

theorem supplyAfter_ifElse (test : Expr) (yes no : Stmt) (supply : Supply) :
    (Stmt.ifElse test yes no).supplyAfter supply =
      let after := no.supplyAfter (yes.supplyAfter supply)
      ⟨after.label + 2, after.id⟩ := by
  simp [Stmt.supplyAfter, lowerStmt]

/-- The code of a loop around the code of its body. -/
def loopCode (label : Nat) (test : Expr) (body : List Stmt) : List Stmt :=
  .goto ⟨label + 1⟩ :: .label ⟨label⟩ ::
    (body ++ [.label ⟨label + 1⟩, .branch ⟨label⟩ test true, .label ⟨label + 2⟩])

theorem flatten_loopStmt (supply : Supply) (test : Expr) (body : Stmt) :
    flatten (loopStmt supply test body).1 = loopCode supply.label test (flatten body) := by
  simp [loopStmt, loopCode, flatten_block, flattenAll_cons, flattenAll_nil, flatten_of_not_block]

theorem code_whileLoop (test : Expr) (body : Stmt) (supply : Supply) :
    (Stmt.whileLoop test body).code supply =
      loopCode (body.supplyAfter supply).label test (body.code supply) := by
  rw [Stmt.code, lowerStmt]
  exact flatten_loopStmt _ _ _

theorem supplyAfter_whileLoop (test : Expr) (body : Stmt) (supply : Supply) :
    (Stmt.whileLoop test body).supplyAfter supply =
      ⟨(body.supplyAfter supply).label + 3, (body.supplyAfter supply).id⟩ := by
  simp [Stmt.supplyAfter, lowerStmt, loopStmt]

theorem code_doWhile (body : Stmt) (test : Expr) (supply : Supply) :
    (Stmt.doWhile body test).code supply =
      .label ⟨(body.supplyAfter supply).label⟩ ::
        (body.code supply ++ [.branch ⟨(body.supplyAfter supply).label⟩ test true]) := by
  simp [Stmt.code, Stmt.supplyAfter, lowerStmt, flatten_block, flattenAll_cons, flattenAll_nil,
    flatten_of_not_block]

theorem supplyAfter_doWhile (body : Stmt) (test : Expr) (supply : Supply) :
    (Stmt.doWhile body test).supplyAfter supply =
      ⟨(body.supplyAfter supply).label + 1, (body.supplyAfter supply).id⟩ := by
  simp [Stmt.supplyAfter, lowerStmt]

theorem code_forTo (v : Variable) (lower upper : Expr) (body : Stmt) (supply : Supply) :
    (Stmt.forTo v lower upper body).code supply =
      let after := body.supplyAfter supply
      .declare v lower :: .declare (boundVariable after.id) upper ::
        loopCode after.label (belowBound v (boundVariable after.id))
          (body.code supply ++ [.expr (increment v)]) := by
  simp [Stmt.code, Stmt.supplyAfter, lowerStmt, flatten_loopStmt, flatten_block, flattenAll_cons,
    flattenAll_nil, flatten_of_not_block]

theorem supplyAfter_forTo (v : Variable) (lower upper : Expr) (body : Stmt) (supply : Supply) :
    (Stmt.forTo v lower upper body).supplyAfter supply =
      ⟨(body.supplyAfter supply).label + 3, (body.supplyAfter supply).id + 1⟩ := by
  simp [Stmt.supplyAfter, lowerStmt, loopStmt]

theorem lower_program (s : Stmt) (nextId : Nat) : (lower s nextId).program = s.code ⟨1, nextId⟩ := by
  rw [lower, Stmt.code]

theorem lower_nextId (s : Stmt) (nextId : Nat) :
    (lower s nextId).nextId = (s.supplyAfter ⟨1, nextId⟩).id := by
  rw [lower, Stmt.supplyAfter]

/-! ## Labels -/

def labelId? : Stmt → Option Nat
  | .label here => some here.id
  | _ => none

/-- The numbers of the labels that stand in code, in order. -/
def labelIds (code : List Stmt) : List Nat := code.filterMap labelId?

/-- The numbers from one up to another. -/
def interval (a b : Nat) : List Nat := List.range' a (b - a)

theorem interval_self (a : Nat) : interval a a = [] := by simp [interval]

theorem interval_append {a b c : Nat} (ab : a ≤ b) (bc : b ≤ c) :
    interval a b ++ interval b c = interval a c := by
  unfold interval
  rw [show c - a = (b - a) + (c - b) by omega, ← List.range'_append_1, show a + (b - a) = b by omega]

theorem interval_succ {a b : Nat} (ab : a ≤ b) : interval a (b + 1) = interval a b ++ [b] := by
  rw [← interval_append ab (Nat.le_succ b)]
  simp [interval]

theorem interval_cons {a b : Nat} (ab : a < b) : interval a b = a :: interval (a + 1) b := by
  rw [← interval_append (Nat.le_succ a) ab, interval_succ (Nat.le_refl a), interval_self]
  rfl

theorem mem_interval {a b i : Nat} : i ∈ interval a b ↔ a ≤ i ∧ i < b := by
  simp only [interval, List.mem_range'_1]
  omega

theorem supply_le_all {body : List Stmt}
    (each : ∀ s ∈ body, ∀ supply : Supply,
      supply.label ≤ (s.supplyAfter supply).label ∧ supply.id ≤ (s.supplyAfter supply).id)
    (supply : Supply) : supply.label ≤ (supplyAfterAll body supply).label ∧
      supply.id ≤ (supplyAfterAll body supply).id := by
  induction body generalizing supply with
  | nil => rw [supplyAfterAll_nil]; exact ⟨Nat.le_refl _, Nat.le_refl _⟩
  | cons s ss ih =>
      rw [supplyAfterAll_cons]
      have first := each s List.mem_cons_self supply
      have rest := ih (fun s member => each s (List.mem_cons_of_mem _ member))
        (s.supplyAfter supply)
      omega

/-- Numbers are taken from a supply and never put back. -/
theorem Stmt.supply_le (s : Stmt) (supply : Supply) :
    supply.label ≤ (s.supplyAfter supply).label ∧ supply.id ≤ (s.supplyAfter supply).id := by
  induction s using Stmt.induction generalizing supply with
  | block body ih => rw [supplyAfter_block]; exact supply_le_all ih supply
  | ifThen test yes ih =>
      have := ih supply
      rw [supplyAfter_ifThen]; dsimp only; omega
  | ifElse test yes no ihYes ihNo =>
      have first := ihYes supply
      have second := ihNo (yes.supplyAfter supply)
      rw [supplyAfter_ifElse]; dsimp only; omega
  | whileLoop test body ih =>
      have := ih supply
      rw [supplyAfter_whileLoop]; dsimp only; omega
  | doWhile body test ih =>
      have := ih supply
      rw [supplyAfter_doWhile]; dsimp only; omega
  | forTo v lower upper body ih =>
      have := ih supply
      rw [supplyAfter_forTo]; dsimp only; omega
  | _ => simp [Stmt.supplyAfter, lowerStmt]

theorem labelIds_codeAll {body : List Stmt}
    (each : ∀ s ∈ body, ∀ supply : Supply, (labelIds (s.code supply)).Perm
      (interval supply.label (s.supplyAfter supply).label)) (supply : Supply) :
    (labelIds (codeAll body supply)).Perm
      (interval supply.label (supplyAfterAll body supply).label) := by
  induction body generalizing supply with
  | nil => rw [codeAll_nil, supplyAfterAll_nil, interval_self]; exact .refl _
  | cons s ss ih =>
      rw [codeAll_cons, supplyAfterAll_cons, labelIds, List.filterMap_append,
        ← interval_append (s.supply_le supply).1 (supply_le_all (fun s _ => s.supply_le) _).1]
      exact (each s List.mem_cons_self supply).append
        (ih (fun s member => each s (List.mem_cons_of_mem _ member)) _)

theorem labelIds_loopCode (label : Nat) (test : Expr) (body : List Stmt) :
    (labelIds (loopCode label test body)).Perm
      (labelIds body ++ [label, label + 1, label + 2]) := by
  simp only [labelIds, loopCode, List.filterMap_cons, labelId?, List.filterMap_append,
    List.filterMap_nil]
  exact List.perm_middle.symm

/-- The labels of a statement's code are the numbers it took from the supply, each once. -/
theorem labelIds_code (s : Stmt) (structured : s.isStructured = true) (supply : Supply) :
    (labelIds (s.code supply)).Perm (interval supply.label (s.supplyAfter supply).label) := by
  induction s using Stmt.induction generalizing supply with
  | block body ih =>
      rw [code_block, supplyAfter_block]
      exact labelIds_codeAll
        (fun s member => ih s member (Stmt.areStructured_iff.1 structured s member)) supply
  | declare v init =>
      simp [code_declare, supplyAfter_declare, interval_self, labelIds, labelId?]
  | expr e => simp [code_expr, supplyAfter_expr, interval_self, labelIds, labelId?]
  | ifThen test yes ih =>
      rw [code_ifThen, supplyAfter_ifThen, interval_succ (yes.supply_le supply).1]
      simp only [labelIds, List.filterMap_cons, labelId?, List.filterMap_append, List.filterMap_nil]
      exact (ih structured supply).append_right _
  | ifElse test yes no ihYes ihNo =>
      simp only [Stmt.isStructured, Bool.and_eq_true] at structured
      have first := yes.supply_le supply
      have second := no.supply_le (yes.supplyAfter supply)
      rw [code_ifElse, supplyAfter_ifElse, interval_succ (by omega), interval_succ (by omega),
        ← interval_append first.1 second.1]
      simp only [labelIds, List.filterMap_cons, labelId?, List.filterMap_append, List.filterMap_nil]
      have between := (ihYes structured.1 supply).append (ihNo structured.2 (yes.supplyAfter supply))
      refine .trans ?_ ((between.append_right [_]).append_right [_])
      -- the label before the second part moves behind it
      simp only [labelIds, List.append_assoc, List.singleton_append]
      exact List.Perm.append_left _ List.perm_middle.symm
  | whileLoop test body ih =>
      have le := (body.supply_le supply).1
      rw [code_whileLoop, supplyAfter_whileLoop, interval_succ (by omega), interval_succ (by omega),
        interval_succ le]
      refine (labelIds_loopCode _ _ _).trans ?_
      simp only [List.append_assoc, List.singleton_append]
      exact (ih structured supply).append_right _
  | doWhile body test ih =>
      rw [code_doWhile, supplyAfter_doWhile, interval_succ (body.supply_le supply).1]
      have inner := (ih structured supply).append_right [(body.supplyAfter supply).label]
      refine .trans ?_ inner
      simp only [labelIds, List.filterMap_cons, labelId?, List.filterMap_append, List.filterMap_nil,
        List.append_nil]
      exact (List.perm_append_singleton _ _).symm
  | forTo v lower upper body ih =>
      have le := (body.supply_le supply).1
      rw [code_forTo, supplyAfter_forTo, interval_succ (by omega), interval_succ (by omega),
        interval_succ le]
      refine (labelIds_loopCode _ _ _).trans ?_
      simp only [labelIds, List.filterMap_append, List.filterMap_cons, labelId?, List.filterMap_nil,
        List.append_nil, List.append_assoc, List.singleton_append]
      exact (ih structured supply).append_right _
  | goto target => cases structured
  | branch target test when => cases structured
  | label here => cases structured

/-- No two labels of a lowered program are the same. -/
theorem labelIds_lower_nodup (s : Stmt) (structured : s.isStructured = true) (nextId : Nat) :
    (labelIds (lower s nextId).program).Nodup := by
  rw [lower_program]
  exact (labelIds_code s structured _).symm.nodup List.nodup_range'

/-! ## Variables -/

/-- Whether a variable is the hidden variable of a loop, numbered from an interval. -/
def IsHidden (first after : Nat) (v : Variable) : Prop :=
  ∃ id, first ≤ id ∧ id < after ∧ v = boundVariable id

theorem IsHidden.mono {first after first' after' : Nat} {v : Variable} (h : IsHidden first after v)
    (below : first' ≤ first) (above : after ≤ after') : IsHidden first' after' v := by
  obtain ⟨id, low, high, rfl⟩ := h
  exact ⟨id, by omega, by omega, rfl⟩

theorem varsOf_append (xs ys : List Stmt) :
    Stmt.varsOf (xs ++ ys) = Stmt.varsOf xs ++ Stmt.varsOf ys := by
  induction xs with
  | nil => rfl
  | cons s ss ih => rw [List.cons_append, Stmt.varsOf, Stmt.varsOf, ih, List.append_assoc]

theorem mem_varsOf_loopCode {label : Nat} {test : Expr} {body : List Stmt} {v : Variable} :
    v ∈ Stmt.varsOf (loopCode label test body) ↔ v ∈ Stmt.varsOf body ∨ v ∈ test.vars := by
  simp [loopCode, Stmt.varsOf, varsOf_append, Stmt.vars]

theorem vars_codeAll {body : List Stmt} {v : Variable}
    (each : ∀ s ∈ body, ∀ supply : Supply, v ∈ Stmt.varsOf (s.code supply) →
      v ∈ s.vars ∨ IsHidden supply.id (s.supplyAfter supply).id v)
    (supply : Supply) (mentioned : v ∈ Stmt.varsOf (codeAll body supply)) :
    v ∈ Stmt.varsOf body ∨ IsHidden supply.id (supplyAfterAll body supply).id v := by
  induction body generalizing supply with
  | nil =>
      rw [codeAll_nil] at mentioned
      cases mentioned
  | cons s ss ih =>
      rw [List.forall_mem_cons] at each
      rw [codeAll_cons, varsOf_append, List.mem_append] at mentioned
      rw [supplyAfterAll_cons, Stmt.varsOf, List.mem_append]
      have left := (s.supply_le supply).2
      have right : (s.supplyAfter supply).id ≤ (supplyAfterAll ss (s.supplyAfter supply)).id :=
        (supply_le_all (fun s _ => s.supply_le) _).2
      rcases mentioned with here | later
      · exact (each.1 supply here).imp .inl (·.mono (Nat.le_refl _) right)
      · exact (ih each.2 _ later).imp .inr (·.mono left (Nat.le_refl _))

/-- Code mentions the variables of its statement, and hidden ones from the supply. -/
theorem Stmt.vars_code (s : Stmt) {v : Variable} (supply : Supply)
    (mentioned : v ∈ Stmt.varsOf (s.code supply)) :
    v ∈ s.vars ∨ IsHidden supply.id (s.supplyAfter supply).id v := by
  induction s using Stmt.induction generalizing supply with
  | block body ih =>
      rw [code_block] at mentioned
      rw [supplyAfter_block, Stmt.vars]
      exact vars_codeAll ih supply mentioned
  | ifThen test yes ih =>
      simp only [code_ifThen, Stmt.varsOf, varsOf_append, Stmt.vars, List.mem_append,
        List.not_mem_nil, or_false] at mentioned ⊢
      rw [supplyAfter_ifThen]
      rcases mentioned with inTest | inside
      · exact .inl (.inl inTest)
      · exact (ih supply inside).imp .inr id
  | ifElse test yes no ihYes ihNo =>
      simp only [code_ifElse, Stmt.varsOf, varsOf_append, Stmt.vars, List.mem_append,
        List.not_mem_nil, or_false, false_or] at mentioned ⊢
      rw [supplyAfter_ifElse]
      have left := (yes.supply_le supply).2
      have right := (no.supply_le (yes.supplyAfter supply)).2
      rcases mentioned with inTest | inYes | inNo
      · exact .inl (.inl (.inl inTest))
      · exact (ihYes supply inYes).imp (.inl ∘ .inr) (·.mono (Nat.le_refl _) right)
      · exact (ihNo _ inNo).imp .inr (·.mono left (Nat.le_refl _))
  | whileLoop test body ih =>
      rw [code_whileLoop, mem_varsOf_loopCode] at mentioned
      rw [supplyAfter_whileLoop, Stmt.vars, List.mem_append]
      rcases mentioned with inside | inTest
      · exact (ih supply inside).imp .inr id
      · exact .inl (.inl inTest)
  | doWhile body test ih =>
      simp only [code_doWhile, Stmt.varsOf, varsOf_append, Stmt.vars, List.mem_append,
        List.not_mem_nil, or_false, false_or] at mentioned ⊢
      rw [supplyAfter_doWhile]
      rcases mentioned with inside | inTest
      · exact (ih supply inside).imp .inl id
      · exact .inl (.inr inTest)
  | forTo u lower upper body ih =>
      have le := (body.supply_le supply).2
      have hidden : IsHidden supply.id ((body.supplyAfter supply).id + 1)
          (boundVariable (body.supplyAfter supply).id) := ⟨_, le, Nat.lt_succ_self _, rfl⟩
      simp only [code_forTo, Stmt.varsOf, mem_varsOf_loopCode, varsOf_append, Stmt.vars,
        belowBound, increment, Expr.vars, List.mem_append, List.mem_cons, List.not_mem_nil,
        or_false] at mentioned ⊢
      rw [supplyAfter_forTo]
      rcases mentioned with (rfl | inLower) | (rfl | inUpper) | (inside | rfl | rfl) | rfl | rfl
      · exact .inl (.inl rfl)
      · exact .inl (.inr (.inl (.inl inLower)))
      · exact .inr hidden
      · exact .inl (.inr (.inl (.inr inUpper)))
      · exact (ih supply inside).imp (.inr ∘ .inr) (·.mono (Nat.le_refl _) (Nat.le_succ _))
      · exact .inl (.inl rfl)
      · exact .inl (.inl rfl)
      · exact .inl (.inl rfl)
      · exact .inr hidden
  | _ =>
      rw [Stmt.code, lowerStmt] at mentioned
      · rw [flatten_of_not_block (by simp), Stmt.varsOf, Stmt.varsOf, List.append_nil] at mentioned
        exact .inl mentioned
      all_goals simp

/-- What code declares is a variable of its statement, or a hidden one. -/
theorem Stmt.declares_code (s : Stmt) {v : Variable} {init : Expr} (supply : Supply)
    (h : Stmt.declare v init ∈ s.code supply) :
    v ∈ s.vars ∨ IsHidden supply.id (s.supplyAfter supply).id v := by
  refine s.vars_code supply (Stmt.mem_varsOf.2 ⟨_, h, ?_⟩)
  rw [Stmt.vars]
  exact List.mem_cons_self

end ScriptLang.Bound
