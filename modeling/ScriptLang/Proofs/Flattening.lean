/-
# ScriptLang.Proofs.Flattening -- blocks opened one at a time are all opened

What a statement is with its blocks opened is said by recursion over it
(`Stmt.opened`): a block is its statements, each opened, one after the other, and
anything else is itself, whatever blocks there are inside of it.

Flattening keeps the statements that wait on a stack.  A block on top of it gives way
to its statements, which are pushed from the last to the first (`Opening.round`), so
the stack may grow in a round.  What goes down, by one in every round, is the number
of blocks and statements that wait, counted with what is in the blocks; so the loop
ends (`Opening.left_iterate`).  What is done already, with what the stack opens to from
the top down after it, is the same after every round (`Opening.gives_iterate`).
-/
import Mathlib.Data.List.Induction
import Mathlib.Logic.Function.Iterate
import ScriptLang.Proofs.FlatCode

namespace ScriptLang.Bound

set_option autoImplicit false

/-! ## Opened statements -/

mutual

/-- A statement as a list, with the blocks opened that are not inside of other statements. -/
def Stmt.opened : Stmt → List Stmt
  | .block body => openedAll body
  | s => [s]

def openedAll : List Stmt → List Stmt
  | [] => []
  | s :: ss => s.opened ++ openedAll ss

end

theorem Stmt.opened_of_not_block {s : Stmt} (h : ∀ body, s = .block body → False) :
    s.opened = [s] := by
  cases s with
  | block body => exact (h body rfl).elim
  | _ => simp only [Stmt.opened]

theorem Stmt.weight_of_not_block {s : Stmt} (h : ∀ body, s = .block body → False) :
    s.weight = 1 := by
  cases s with
  | block body => exact (h body rfl).elim
  | _ => rw [Stmt.weight]; exact h

theorem openedAll_append (xs ys : List Stmt) :
    openedAll (xs ++ ys) = openedAll xs ++ openedAll ys := by
  induction xs with
  | nil => simp [openedAll]
  | cons s ss ih => simp [openedAll, ih]

theorem flattenAll_eq_openedAll (waiting : List Stmt) : flattenAll waiting = openedAll waiting := by
  fun_induction flattenAll waiting with
  | case1 => rw [openedAll]
  | case2 body rest ih => rw [ih, openedAll_append, openedAll, Stmt.opened]
  | case3 s rest notBlock ih =>
      rw [ih, openedAll, Stmt.opened_of_not_block notBlock, List.singleton_append]

theorem not_block_of_mem_flattenAll {s : Stmt} {waiting : List Stmt}
    (member : s ∈ flattenAll waiting) (body : List Stmt) : s ≠ .block body := by
  fun_induction flattenAll waiting with
  | case1 => cases member
  | case2 _ _ ih => exact ih member
  | case3 t rest notBlock ih =>
      rcases List.mem_cons.1 member with rfl | later
      · exact notBlock body
      · exact ih later

theorem flattenAll_of_not_block {code : List Stmt} (flat : ∀ s ∈ code, ∀ body, s ≠ .block body) :
    flattenAll code = code := by
  induction code with
  | nil => exact flattenAll_nil
  | cons s ss ih =>
      obtain ⟨first, others⟩ := List.forall_mem_cons.1 flat
      rw [flattenAll_cons, flatten_of_not_block first, ih others, List.singleton_append]

theorem flattenAll_eq_flatMap (body : List Stmt) : flattenAll body = body.flatMap flatten := by
  induction body with
  | nil => exact flattenAll_nil
  | cons s ss ih => rw [flattenAll_cons, ih, List.flatMap_cons]

/-! ## The loop -/

/-- The loop between two rounds. -/
structure Opening where
  /-- What waits; the next statement is the last one. -/
  stack : List Stmt
  /-- What is done, in order. -/
  result : List Stmt

namespace Opening

/-- The loop before the first round. -/
def start (s : Stmt) : Opening := ⟨[s], []⟩

/-- Take the next statement from the stack.  A block pushes its statements, the first of them
last, and anything else is done.  With nothing on the stack the loop stays as it is. -/
def round (o : Opening) : Opening :=
  match o.stack.getLast? with
  | none => o
  | some (.block body) => ⟨o.stack.dropLast ++ body.reverse, o.result⟩
  | some s => ⟨o.stack.dropLast, o.result ++ [s]⟩

/-- How many blocks and statements have not been taken from the stack yet. -/
def left (o : Opening) : Nat := weights o.stack.reverse

/-- What is done, and what the stack opens to. -/
def gives (o : Opening) : List Stmt := o.result ++ openedAll o.stack.reverse

theorem round_block (below body result : List Stmt) :
    round ⟨below ++ [.block body], result⟩ = ⟨below ++ body.reverse, result⟩ := by
  simp [round]

theorem round_of_not_block {s : Stmt} (h : ∀ body, s = .block body → False)
    (below result : List Stmt) :
    round ⟨below ++ [s], result⟩ = ⟨below, result ++ [s]⟩ := by
  cases s with
  | block body => exact (h body rfl).elim
  | _ => simp [round]

theorem stack_eq_nil_iff (o : Opening) : o.stack = [] ↔ o.left = 0 := by
  rw [left, ← List.reverse_eq_nil_iff]
  cases o.stack.reverse with
  | nil => simp [weights]
  | cons s ss =>
      have taken := s.weight_pos
      simp only [weights, reduceCtorEq, false_iff]
      omega

/-- A round takes one block or statement from the stack, if there is one, and changes nothing about
what comes out. -/
theorem round_spec (o : Opening) : o.round.left = o.left - 1 ∧ o.round.gives = o.gives := by
  obtain ⟨stack, result⟩ := o
  -- from the top down: reversed, what a block pushed is its body in order, before what waited below
  cases stack using List.reverseRecOn with
  | nil => exact ⟨rfl, rfl⟩
  | append_singleton below s =>
      by_cases block : ∃ body, s = .block body
      · obtain ⟨body, rfl⟩ := block
        rw [round_block]
        constructor
        · simp only [left, List.reverse_append, List.reverse_reverse, List.reverse_singleton,
            List.singleton_append, weights, weights_append, Stmt.weight]
          omega
        · simp only [gives, List.reverse_append, List.reverse_reverse, List.reverse_singleton,
            List.singleton_append, openedAll, openedAll_append, Stmt.opened]
      · have notBlock : ∀ body, s = .block body → False := fun body same => block ⟨body, same⟩
        rw [round_of_not_block notBlock]
        constructor
        · simp [left, weights, Stmt.weight_of_not_block notBlock]
        · simp [gives, openedAll, Stmt.opened_of_not_block notBlock]

theorem left_iterate (o : Opening) (n : Nat) : (round^[n] o).left = o.left - n := by
  induction n with
  | zero => rfl
  | succ n ih => rw [Function.iterate_succ_apply', (round_spec _).1, ih, Nat.sub_sub]

theorem gives_iterate (o : Opening) (n : Nat) : (round^[n] o).gives = o.gives := by
  induction n with
  | zero => rfl
  | succ n ih => rw [Function.iterate_succ_apply', (round_spec _).2, ih]

theorem left_start (s : Stmt) : (start s).left = s.weight := rfl

theorem gives_start (s : Stmt) : (start s).gives = s.opened := by
  simp [start, gives, openedAll]

/-- With nothing left to wait everything is in the result. -/
theorem result_of_stack_nil {o : Opening} (done : o.stack = []) : o.result = o.gives := by
  rw [gives, done, List.reverse_nil, openedAll, List.append_nil]

end Opening

/-- Flattening opens the blocks of a statement, and only those that are not inside of other
statements.  The loop over the stack comes to its end, after one round for each block and
statement, and has the same result.  So what is flat already stays as it is, and a block of two
parts is flattened part by part. -/
theorem flatten_eq_opened (s : Stmt) :
    flatten s = s.opened ∧
    (∀ n, (Opening.round^[n] (.start s)).stack = [] ↔ s.weight ≤ n) ∧
    (Opening.round^[s.weight] (.start s)).result = flatten s ∧
    (∀ body : List Stmt, flatten (.block (body.flatMap flatten)) = body.flatMap flatten) ∧
    ∀ xs ys : List Stmt,
      flatten (.block (xs ++ ys)) = flatten (.block xs) ++ flatten (.block ys) := by
  have opened : flatten s = s.opened := by
    rw [flatten, flattenAll_eq_openedAll, openedAll, openedAll, List.append_nil]
  have stops (n : Nat) : (Opening.round^[n] (.start s)).stack = [] ↔ s.weight ≤ n := by
    rw [Opening.stack_eq_nil_iff, Opening.left_iterate, Opening.left_start,
      Nat.sub_eq_zero_iff_le]
  refine ⟨opened, stops, ?_, fun body => ?_, fun xs ys => ?_⟩
  · rw [Opening.result_of_stack_nil ((stops _).2 (Nat.le_refl _)), Opening.gives_iterate,
      Opening.gives_start, opened]
  · rw [flatten_block, ← flattenAll_eq_flatMap]
    exact flattenAll_of_not_block fun s member => not_block_of_mem_flattenAll member
  · rw [flatten_block, flatten_block, flatten_block, flattenAll_append]

end ScriptLang.Bound
