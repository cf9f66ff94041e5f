/-
# ScriptLang.Flat.Lower -- control flow as jumps

Branches and loops become labels and jumps, innermost first.  A `for` becomes a
`while` over its variable, with the upper bound kept in a hidden variable so that
it is computed once.  Labels are numbered from one in each program; hidden
variables take the next free numbers of variables.
-/
import ScriptLang.Flat.Flatten

namespace ScriptLang.Bound

set_option autoImplicit false

/-- The next free numbers. -/
structure Supply where
  label : Nat
  id : Nat
deriving DecidableEq, Inhabited

/-- A loop that tests before each round: the check comes after the body, and is jumped to first. -/
def loopStmt (supply : Supply) (test : Expr) (body : Stmt) : Stmt × Supply :=
  let again : Label := ⟨supply.label⟩
  let check : Label := ⟨supply.label + 1⟩
  let done : Label := ⟨supply.label + 2⟩
  (.block [.goto check, .label again, body, .label check, .branch again test true, .label done],
    { supply with label := supply.label + 3 })

/-- The hidden variable that keeps the upper bound of a `for`. -/
def boundVariable (id : Nat) : Variable := ⟨id, "upperBound", .int, false, none⟩

/-- Whether the loop variable has not reached the bound. -/
def belowBound (v bound : Variable) : Expr :=
  .binary (.var v) ⟨.lt, .int, .int, .bool⟩ (.var bound)

/-- Move the loop variable on by one. -/
def increment (v : Variable) : Expr :=
  .assign v (.binary (.var v) ⟨.add, .int, .int, .int⟩ (.literal (.int 1)))

mutual

def lowerStmt : Stmt → Supply → Stmt × Supply
  | .block body, supply =>
      let (body, supply) := lowerStmts body supply
      (.block body, supply)
  | .ifThen test yes, supply =>
      let (yes, supply) := lowerStmt yes supply
      let done : Label := ⟨supply.label⟩
      (.block [.branch done test false, yes, .label done],
        { supply with label := supply.label + 1 })
  | .ifElse test yes no, supply =>
      let (yes, supply) := lowerStmt yes supply
      let (no, supply) := lowerStmt no supply
      let other : Label := ⟨supply.label⟩
      let done : Label := ⟨supply.label + 1⟩
      (.block [.branch other test false, yes, .goto done, .label other, no, .label done],
        { supply with label := supply.label + 2 })
  | .whileLoop test body, supply =>
      let (body, supply) := lowerStmt body supply
      loopStmt supply test body
  | .doWhile body test, supply =>
      let (body, supply) := lowerStmt body supply
      let again : Label := ⟨supply.label⟩
      (.block [.label again, body, .branch again test true],
        { supply with label := supply.label + 1 })
  | .forTo v lower upper body, supply =>
      let (body, supply) := lowerStmt body supply
      let bound := boundVariable supply.id
      let supply := { supply with id := supply.id + 1 }
      let (loop, supply) :=
        loopStmt supply (belowBound v bound) (.block [body, .expr (increment v)])
      (.block [.declare v lower, .declare bound upper, loop], supply)
  | s, supply => (s, supply)

def lowerStmts : List Stmt → Supply → List Stmt × Supply
  | [], supply => ([], supply)
  | s :: ss, supply =>
      let (s, supply) := lowerStmt s supply
      let (ss, supply) := lowerStmts ss supply
      (s :: ss, supply)

end

theorem lowerStmt_block (body : List Stmt) (supply : Supply) :
    lowerStmt (.block body) supply =
      (.block (lowerStmts body supply).1, (lowerStmts body supply).2) := by
  rw [lowerStmt]

theorem lowerStmts_nil (supply : Supply) : lowerStmts [] supply = ([], supply) := by
  rw [lowerStmts]

/-- A flat program. -/
structure Lowered where
  program : List Stmt
  /-- How many labels were made. -/
  labels : Nat
  /-- The next free number of a variable. -/
  nextId : Nat
deriving Inhabited

/-- Turn a statement into a flat program, with hidden variables numbered from `nextId`. -/
def lower (s : Stmt) (nextId : Nat) : Lowered :=
  let (lowered, supply) := lowerStmt s ⟨1, nextId⟩
  ⟨flatten lowered, supply.label - 1, supply.id⟩

end ScriptLang.Bound
