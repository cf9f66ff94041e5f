/-
# ScriptLang.Run.Eval -- the value of an expression

Operands and arguments are evaluated from left to right, all of them, before the
operator or function is applied; the first fault ends the evaluation and leaves
the world as it was at that point.
-/
import ScriptLang.Bound.Tree
import ScriptLang.Run.Operation
import ScriptLang.Run.World

namespace ScriptLang

set_option autoImplicit false

namespace Builtin

/-- Write a line or a part of one. -/
def runPrint (name ending : String) (args : List Value) (w : World) : Outcome Value :=
  match args with
  | [] => (.error (.missingArgument name), w)
  | value :: _ => (w.write (value.text ++ ending)).andThen fun _ w => (.ok .void, w)

/-- Draw a whole number below a bound. -/
def runRandomInt (name : String) (args : List Value) (w : World) : Outcome Value :=
  match args with
  | [] => (.error (.missingArgument name), w)
  | .int max :: _ =>
      if max ≤ 0 then (.error (.randomBound max), w)
      else
        let (word, w) := w.draw
        (.ok (.int (Draws.below word max)), w)
  | value :: _ => (.error (.expected .int value.ty), w)

/-- Draw a number from zero up to a bound. -/
def runRandomFloat (name : String) (args : List Value) (w : World) : Outcome Value :=
  match args with
  | [] => (.error (.missingArgument name), w)
  | value :: _ =>
      match value.float? with
      | some max =>
          let (word, w) := w.draw
          (.ok (.float (Draws.unit word * max)), w)
      | none => (.error (.expected .float value.ty), w)

/-- Run a builtin under the name it was called by. -/
def run (b : Builtin) (name : String) (args : List Value) (w : World) : Outcome Value :=
  match b with
  | .print => runPrint name "" args w
  | .println => runPrint name "\n" args w
  | .input => w.readLine.andThen fun line w => (.ok (.str line), w)
  | .stringify =>
      match args with
      | [] => (.error (.missingArgument name), w)
      | value :: _ => (.ok (.str value.text), w)
  | .randomInt => runRandomInt name args w
  | .randomFloat => runRandomFloat name args w

end Builtin

/-- Call a function. -/
def Function.run (f : Function) (args : List Value) (w : World) : Outcome Value :=
  match f.builtin with
  | some b => b.run f.name args w
  | none => (.error (.unexpectedNode ("call to " ++ f.name)), w)

namespace Bound

mutual

def Expr.eval : Expr → World → Outcome Value
  | .literal value, w => (.ok value, w)
  | .var v, w =>
      match w.store.get? v.id with
      | some value => (.ok value, w)
      | none => (.error (.undefinedVariable v.name), w)
  | .assign v e, w =>
      (e.eval w).andThen fun value w =>
        match w.store.assign? v.id value with
        | some store => (.ok value, { w with store := store })
        | none => (.error (.undefinedVariable v.name), w)
  | .unary rule e, w => (e.eval w).andThen fun value w => (Operation.unary rule.op value, w)
  | .binary left rule right, w =>
      (left.eval w).andThen fun l w =>
        (right.eval w).andThen fun r w => (Operation.binary rule.op l r, w)
  | .call f args, w => (Expr.evalAll args w).andThen fun values w => f.run values w
  | .convert ty e, w => (e.eval w).andThen fun value w => (Operation.convert ty value, w)
  | .error, w => (.error (.unexpectedNode "ErrorExpr"), w)

def Expr.evalAll : List Expr → World → Outcome (List Value)
  | [], w => (.ok [], w)
  | e :: es, w =>
      (e.eval w).andThen fun value w =>
        (Expr.evalAll es w).andThen fun values w => (.ok (value :: values), w)

end

end Bound

end ScriptLang
