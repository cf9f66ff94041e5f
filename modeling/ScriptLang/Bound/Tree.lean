/-
# ScriptLang.Bound.Tree -- programs with names and types resolved

Expressions carry the variables, functions and operator rules they use.  Jumps
and labels are statements too: structured programs do not contain them, and
flat programs are made of them.
-/
import ScriptLang.Bound.Operator
import ScriptLang.Value

namespace ScriptLang.Bound

set_option autoImplicit false

/-- A resolved expression. -/
inductive Expr where
  | literal (value : Value)
  | unary (rule : UnaryRule) (operand : Expr)
  | binary (left : Expr) (rule : BinaryRule) (right : Expr)
  | var (v : Variable)
  | assign (v : Variable) (value : Expr)
  | call (f : Function) (args : List Expr)
  | convert (ty : Ty) (e : Expr)
  /-- What could not be resolved. -/
  | error
deriving Inhabited

namespace Expr

/-- The type of the value; an assignment has the type of what is assigned. -/
def ty : Expr → Ty
  | .literal value => value.ty
  | .unary rule _ => rule.result
  | .binary _ rule _ => rule.result
  | .var v => v.ty
  | .assign _ value => value.ty
  | .call f _ => f.result
  | .convert ty _ => ty
  | .error => .unknown

/-- Whether the type is unknown. -/
def isUnknown (e : Expr) : Bool := e.ty = .unknown

end Expr

/-- A resolved statement. -/
inductive Stmt where
  | block (body : List Stmt)
  | declare (v : Variable) (init : Expr)
  | ifThen (test : Expr) (yes : Stmt)
  | ifElse (test : Expr) (yes no : Stmt)
  | whileLoop (test : Expr) (body : Stmt)
  | doWhile (body : Stmt) (test : Expr)
  | forTo (v : Variable) (lower upper : Expr) (body : Stmt)
  | expr (e : Expr)
  | goto (target : Label)
  /-- Jump if the test gives `when`. -/
  | branch (target : Label) (test : Expr) (when : Bool)
  | label (here : Label)
deriving Inhabited

/-- The name of the kind. -/
def Stmt.kind : Stmt → String
  | .block _ => "BlockStmt"
  | .declare .. => "VariableDeclaration"
  | .ifThen .. | .ifElse .. => "IfStmt"
  | .whileLoop .. => "WhileStmt"
  | .doWhile .. => "DoWhileStmt"
  | .forTo .. => "ForStmt"
  | .expr _ => "ExpressionStmt"
  | .goto _ => "GotoStmt"
  | .branch .. => "ConditionalGotoStmt"
  | .label _ => "LabelStmt"

end ScriptLang.Bound
