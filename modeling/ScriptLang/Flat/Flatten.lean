/-
# ScriptLang.Flat.Flatten -- nested blocks as one list

Blocks are opened one at a time: a list of statements waits to be looked at, a
block at its front is replaced by its statements, and anything else is the next
statement of the result.  Blocks inside other statements stay as they are.
-/
import ScriptLang.Bound.Tree

namespace ScriptLang.Bound

set_option autoImplicit false

mutual

/-- Number of blocks and statements outside of other statements. -/
def Stmt.weight : Stmt → Nat
  | .block body => 1 + weights body
  | _ => 1

def weights : List Stmt → Nat
  | [] => 0
  | s :: ss => s.weight + weights ss

end

theorem weights_append (xs ys : List Stmt) : weights (xs ++ ys) = weights xs + weights ys := by
  induction xs with
  | nil => simp [weights]
  | cons s ss ih => simp [weights, ih, Nat.add_assoc]

theorem Stmt.weight_pos (s : Stmt) : 0 < s.weight := by
  cases s <;> (unfold Stmt.weight; omega)

/-- The statements of a list, with the blocks in it opened. -/
def flattenAll (waiting : List Stmt) : List Stmt :=
  match waiting with
  | [] => []
  | .block body :: rest => flattenAll (body ++ rest)
  | s :: rest => s :: flattenAll rest
termination_by weights waiting
decreasing_by
  · simp [weights, weights_append, Stmt.weight]
  · simpa [weights] using s.weight_pos

theorem flattenAll_nil : flattenAll [] = [] := by rw [flattenAll]

/-- A statement as a list without blocks. -/
def flatten (s : Stmt) : List Stmt := flattenAll [s]

end ScriptLang.Bound
