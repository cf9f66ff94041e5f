/-
# ScriptLang.Bound.Replace -- replacing expressions in a tree

A rule gives replacements for some expressions.  Replacing applies it from the
root down: an expression with a replacement is replaced as it stands, any other
is rebuilt from its replaced parts.  The answer is `none` where nothing was
replaced, so that an unchanged tree is never rebuilt.

Lists are gone through from the left.  Nothing is copied up to the first element
that is replaced; with it, the elements before it are copied, and from then on
every element is added, replaced or not.
-/
import ScriptLang.Bound.Tree

namespace ScriptLang.Bound

set_option autoImplicit false

/-- Replacements for some expressions. -/
abbrev Rule := Expr → Option Expr

/-- Two parts of which at least one was replaced. -/
def replaced {α β : Type} (a : α) (a' : Option α) (b : β) (b' : Option β) : Option (α × β) :=
  match a', b' with
  | none, none => none
  | _, _ => some (a'.getD a, b'.getD b)

/-- Go on over an element of a list, which was replaced or not: what is copied so far, if
anything. -/
def copied {α : Type} (before : List α) (out : Option (List α)) (a : α) (a' : Option α) :
    Option (List α) :=
  match out, a' with
  | some out, a' => some (out ++ [a'.getD a])
  | none, some a' => some (before ++ [a'])
  | none, none => none

mutual

def Expr.replace (rule : Rule) (e : Expr) : Option Expr :=
  match rule e with
  | some replacement => some replacement
  | none =>
      match e with
      | .unary op operand => (operand.replace rule).map (.unary op)
      | .binary left op right =>
          (replaced left (left.replace rule) right (right.replace rule)).map fun p =>
            .binary p.1 op p.2
      | .assign v value => (value.replace rule).map (.assign v)
      | .call f args => (Expr.replaceAll rule [] none args).map (.call f)
      | .convert ty inner => (inner.replace rule).map (.convert ty)
      | .literal _ | .var _ | .error => none

/-- Replace in the rest of a list, after the elements before it. -/
def Expr.replaceAll (rule : Rule) (before : List Expr) (out : Option (List Expr)) :
    List Expr → Option (List Expr)
  | [] => out
  | e :: es => Expr.replaceAll rule (before ++ [e]) (copied before out e (e.replace rule)) es

end

mutual

def Stmt.replace (rule : Rule) : Stmt → Option Stmt
  | .block body => (Stmt.replaceAll rule [] none body).map .block
  | .declare v init => (init.replace rule).map (.declare v)
  | .ifThen test yes =>
      (replaced test (test.replace rule) yes (yes.replace rule)).map fun p => .ifThen p.1 p.2
  | .ifElse test yes no =>
      let branches := replaced yes (yes.replace rule) no (no.replace rule)
      (replaced test (test.replace rule) (yes, no) branches).map fun p =>
        .ifElse p.1 p.2.1 p.2.2
  | .whileLoop test body =>
      (replaced test (test.replace rule) body (body.replace rule)).map fun p =>
        .whileLoop p.1 p.2
  | .doWhile body test =>
      (replaced body (body.replace rule) test (test.replace rule)).map fun p => .doWhile p.1 p.2
  | .forTo v lower upper body =>
      let bounds := replaced lower (lower.replace rule) upper (upper.replace rule)
      (replaced (lower, upper) bounds body (body.replace rule)).map fun p =>
        .forTo v p.1.1 p.1.2 p.2
  | .expr e => (e.replace rule).map .expr
  | .branch target test when => (test.replace rule).map fun test => .branch target test when
  | .goto _ | .label _ => none

/-- Replace in the rest of a list, after the elements before it. -/
def Stmt.replaceAll (rule : Rule) (before : List Stmt) (out : Option (List Stmt)) :
    List Stmt → Option (List Stmt)
  | [] => out
  | s :: ss => Stmt.replaceAll rule (before ++ [s]) (copied before out s (s.replace rule)) ss

end

/-- The rule that replaces nothing. -/
def Rule.none : Rule := fun _ => .none

/-- The rule that replaces one integer literal by another. -/
def Rule.integer (old new : Int64) : Rule
  | .literal (.int n) => if n = old then some (.literal (.int new)) else .none
  | _ => .none

end ScriptLang.Bound
