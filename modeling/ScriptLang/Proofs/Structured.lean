/-
# ScriptLang.Proofs.Structured -- statements run as they are nested

A second meaning of programs, without jumps: a block runs its statements in
order, a branch runs one of its parts, a loop runs its body for as long as its
test holds.  A `for` gives its variable the lower bound, computes the upper bound
once, and then runs as a `while` whose test compares with the value of that bound.

The result is the value of the last declaration or expression statement, as for
the machine; a test gives none.  Loops need not end, so each is given a number of
rounds, and more rounds keep a result that is there (`Stmt.interpret_mono`).
-/
import ScriptLang.Proofs.Variables
import ScriptLang.Run.Machine

namespace ScriptLang

set_option autoImplicit false

/-- Go on with the value, if there is one, to a run that need not end. -/
def Outcome.proceed {α : Type} (o : Outcome α) (next : α → World → Option (Outcome Value)) :
    Option (Outcome Value) :=
  match o with
  | (.ok a, w) => next a w
  | (.error f, w) => some (.error f, w)

/-- Go on after a run, if it ended with a value. -/
def followedBy (run : Option (Outcome Value)) (next : Value → World → Option (Outcome Value)) :
    Option (Outcome Value) :=
  match run with
  | some o => o.proceed next
  | none => none

namespace Bound

/-- The truth of a test. -/
def Expr.test (e : Expr) (w : World) : Outcome Bool :=
  (e.eval w).andThen fun value w =>
    match value with
    | .bool b => (.ok b, w)
    | value => (.error (.expected .bool value.ty), w)

/-- Give a variable the value of an expression. -/
def Expr.declareAs (e : Expr) (v : Variable) (w : World) : Outcome Value :=
  (e.eval w).andThen fun value w => (.ok value, { w with store := w.store.upsert v value })

/-- Run a body for as long as a test holds, at most a number of times. -/
def repeatWhile (test : World → Outcome Bool) (body : Value → World → Option (Outcome Value)) :
    Nat → Value → World → Option (Outcome Value)
  | 0, _, _ => none
  | rounds + 1, last, w =>
      (test w).proceed fun holds w =>
        if holds then followedBy (body last w) (repeatWhile test body rounds)
        else some (.ok last, w)

/-- Whether a variable is below a value. -/
def belowValue (v : Variable) (bound : Value) : Expr :=
  .binary (.var v) ⟨.lt, .int, .int, .bool⟩ (.literal bound)

theorem forall_vars_belowValue {P : Variable → Prop} {v : Variable} (own : P v) (bound : Value) :
    ∀ u ∈ (belowValue v bound).vars, P u :=
  List.forall_mem_singleton.2 own

theorem forall_vars_increment {P : Variable → Prop} {v : Variable} (own : P v) :
    ∀ u ∈ (increment v).vars, P u :=
  List.forall_mem_cons.2 ⟨own, List.forall_mem_singleton.2 own⟩

mutual

/-- Run a statement after a last value, every loop for at most `rounds` rounds.  The answer is
`none` if a loop has not ended by then. -/
def Stmt.interpret (rounds : Nat) : Stmt → Value → World → Option (Outcome Value)
  | .block body, last, w => Stmt.interpretAll rounds body last w
  | .declare v init, _, w => some (init.declareAs v w)
  | .expr e, _, w => some (e.eval w)
  | .ifThen test yes, last, w =>
      (test.test w).proceed fun holds w =>
        if holds then yes.interpret rounds last w else some (.ok last, w)
  | .ifElse test yes no, last, w =>
      (test.test w).proceed fun holds w =>
        if holds then yes.interpret rounds last w else no.interpret rounds last w
  | .whileLoop test body, last, w =>
      repeatWhile test.test (fun last w => body.interpret rounds last w) rounds last w
  | .doWhile body test, last, w =>
      followedBy (body.interpret rounds last w)
        (repeatWhile test.test (fun last w => body.interpret rounds last w) rounds)
  | .forTo v lower upper body, _, w =>
      (lower.declareAs v w).proceed fun _ w =>
        (upper.eval w).proceed fun bound w =>
          repeatWhile (belowValue v bound).test
            (fun last w => followedBy (body.interpret rounds last w)
              fun _ w => some ((increment v).eval w))
            rounds bound w
  -- a structured program has no jumps
  | .goto target, _, w => some (.error (.unexpectedNode (Stmt.goto target).kind), w)
  | .branch target test when, _, w =>
      some (.error (.unexpectedNode (Stmt.branch target test when).kind), w)
  | .label here, _, w => some (.error (.unexpectedNode (Stmt.label here).kind), w)

/-- Run statements one after the other. -/
def Stmt.interpretAll (rounds : Nat) : List Stmt → Value → World → Option (Outcome Value)
  | [], last, w => some (.ok last, w)
  | s :: ss, last, w =>
      followedBy (s.interpret rounds last w) fun last w => Stmt.interpretAll rounds ss last w

end

/-! ## More rounds -/

theorem proceed_eq_some_mono {α : Type} {o : Outcome α}
    {f g : α → World → Option (Outcome Value)} {p : Outcome Value}
    (more : ∀ a w, f a w = some p → g a w = some p) (h : o.proceed f = some p) :
    o.proceed g = some p := by
  obtain ⟨result, w⟩ := o
  cases result with
  | ok a => exact more a w h
  | error f => exact h

theorem followedBy_eq_some_mono {run run' : Option (Outcome Value)}
    {f g : Value → World → Option (Outcome Value)} {p : Outcome Value}
    (first : ∀ o, run = some o → run' = some o)
    (more : ∀ last w, f last w = some p → g last w = some p) (h : followedBy run f = some p) :
    followedBy run' g = some p := by
  cases run with
  | none => cases h
  | some o =>
      rw [first o rfl]
      exact proceed_eq_some_mono more h

theorem repeatWhile_mono {test : World → Outcome Bool}
    {body body' : Value → World → Option (Outcome Value)}
    (more : ∀ last w o, body last w = some o → body' last w = some o) {n m : Nat} (le : n ≤ m)
    {last : Value} {w : World} {o : Outcome Value}
    (h : repeatWhile test body n last w = some o) : repeatWhile test body' m last w = some o := by
  induction n generalizing m last w with
  | zero => cases h
  | succ n ih =>
      obtain ⟨m, rfl⟩ : ∃ k, m = k + 1 := ⟨m - 1, by omega⟩
      refine proceed_eq_some_mono ?_ h
      intro holds w h
      cases holds with
      | false => exact h
      | true =>
          exact followedBy_eq_some_mono (more last w) (fun last w h => ih (by omega) h) h

/-- A statement list runs as its statements do. -/
theorem interpretAll_mono {n m : Nat} {body : List Stmt}
    (each : ∀ s ∈ body, ∀ last w o, s.interpret n last w = some o → s.interpret m last w = some o)
    {last : Value} {w : World} {o : Outcome Value}
    (h : Stmt.interpretAll n body last w = some o) : Stmt.interpretAll m body last w = some o := by
  induction body generalizing last w with
  | nil => exact h
  | cons s ss ih =>
      rw [Stmt.interpretAll] at h ⊢
      exact followedBy_eq_some_mono (each s List.mem_cons_self last w)
        (fun last w h => ih (fun s member => each s (List.mem_cons_of_mem _ member)) h) h

/-- More rounds keep a result that is there. -/
theorem Stmt.interpret_mono {n m : Nat} (le : n ≤ m) (s : Stmt) (last : Value) (w : World)
    (o : Outcome Value) (h : s.interpret n last w = some o) : s.interpret m last w = some o := by
  induction s using Stmt.induction generalizing last w o with
  | block body ih =>
      rw [Stmt.interpret] at h ⊢
      exact interpretAll_mono (fun s member last w o => ih s member last w o) h
  | ifThen test yes ih =>
      rw [Stmt.interpret] at h ⊢
      refine proceed_eq_some_mono ?_ h
      intro holds w h
      cases holds with
      | true => exact ih last w o h
      | false => exact h
  | ifElse test yes no ihYes ihNo =>
      rw [Stmt.interpret] at h ⊢
      refine proceed_eq_some_mono ?_ h
      intro holds w h
      cases holds with
      | true => exact ihYes last w o h
      | false => exact ihNo last w o h
  | whileLoop test body ih =>
      rw [Stmt.interpret] at h ⊢
      exact repeatWhile_mono ih le h
  | doWhile body test ih =>
      rw [Stmt.interpret] at h ⊢
      exact followedBy_eq_some_mono (ih last w) (fun last w => repeatWhile_mono ih le) h
  | forTo v lower upper body ih =>
      rw [Stmt.interpret] at h ⊢
      refine proceed_eq_some_mono (fun _ w => proceed_eq_some_mono ?_) h
      intro bound w
      refine repeatWhile_mono ?_ le
      intro last w o
      exact followedBy_eq_some_mono (ih last w) (fun _ _ h => h)
  | declare v init => exact h
  | expr e => exact h
  | goto target => exact h
  | branch target test when => exact h
  | label here => exact h

theorem Stmt.interpretAll_more {n m : Nat} (le : n ≤ m) {body : List Stmt} {last : Value}
    {w : World} {o : Outcome Value} (h : Stmt.interpretAll n body last w = some o) :
    Stmt.interpretAll m body last w = some o :=
  interpretAll_mono (fun s _ last w o => s.interpret_mono le last w o) h

theorem Stmt.interpretAll_append (rounds : Nat) (xs ys : List Stmt) (last : Value) (w : World) :
    Stmt.interpretAll rounds (xs ++ ys) last w =
      followedBy (Stmt.interpretAll rounds xs last w) (Stmt.interpretAll rounds ys) := by
  induction xs generalizing last w with
  | nil => rfl
  | cons s ss ih =>
      rw [List.cons_append, Stmt.interpretAll, Stmt.interpretAll]
      match s.interpret rounds last w with
      | none => rfl
      | some (.error f, w) => rfl
      | some (.ok last, w) => exact ih last w

end Bound

end ScriptLang
