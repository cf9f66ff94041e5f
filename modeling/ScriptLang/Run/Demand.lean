/-
# ScriptLang.Run.Demand -- how much input a statement can take

Every call in an expression is made at most once when it is evaluated, so the
calls that read a line bound the lines that are read.  Who supplies input as it
comes can supply that much before a statement runs, and no more.
-/
import ScriptLang.Run.Machine

namespace ScriptLang

set_option autoImplicit false

/-- The lines that a call can read. -/
def Function.demand (f : Function) : Nat := if f.builtin = some .input then 1 else 0

namespace Bound

mutual

/-- The lines that evaluating an expression can read. -/
def Expr.demand : Expr → Nat
  | .literal _ | .var _ | .error => 0
  | .unary _ e => e.demand
  | .binary left _ right => left.demand + right.demand
  | .assign _ e => e.demand
  | .call f args => Expr.demands args + f.demand
  | .convert _ e => e.demand

def Expr.demands : List Expr → Nat
  | [] => 0
  | e :: es => e.demand + Expr.demands es

end

/-- The lines that one step of a flat program can read. -/
def Stmt.demand : Stmt → Nat
  | .declare _ e | .expr e | .branch _ e _ => e.demand
  | _ => 0

end Bound

/-- The lines that the next step can read. -/
def Machine.demand (image : Image) (m : Machine) : Nat :=
  (image.code[m.pc]?.map Bound.Stmt.demand).getD 0

end ScriptLang
