/-
# ScriptLang.Bound.Outline -- resolved programs for the eye

The outline shows the type of every expression and variable.
-/
import ScriptLang.Bound.Tree
import ScriptLang.Text.Outline
import ScriptLang.Text.Quoted

namespace ScriptLang.Bound

set_option autoImplicit false

/-- A literal with its type; strings are quoted. -/
def literalText : Value → String
  | .str s => Text.quote s ++ ": string"
  | value => value.text ++ ": " ++ value.ty.name

/-- A declared variable with its mutability and type. -/
def variableText (v : Variable) : String :=
  (if v.mutable then "mut " else "") ++ v.name ++ ": " ++ v.ty.name

/-- A name with a type. -/
def typed (name : String) (ty : Ty) : String := name ++ ": " ++ ty.name

namespace Expr

mutual

def outline : Expr → Outline
  | .literal value => .leaf ("LiteralExpr " ++ literalText value)
  | .unary rule operand => .node ("UnaryExpr " ++ typed rule.op.text rule.result) [outline operand]
  | .binary left rule right =>
      .node ("BinaryExpr " ++ typed rule.op.text rule.result) [outline left, outline right]
  | .var v => .leaf ("VariableExpr " ++ typed v.name v.ty)
  | .assign v value => .node ("AssignmentExpr " ++ typed v.name v.ty) [outline value]
  | .call f args => .node ("CallExpr " ++ typed f.name f.result) (outlines args)
  | .convert ty e => .node ("ConversionExpr " ++ ty.name) [outline e]
  | .error => .leaf "ErrorExpr"

def outlines : List Expr → List Outline
  | [] => []
  | e :: es => outline e :: outlines es

end

theorem outlines_eq_map (args : List Expr) : outlines args = args.map outline := by
  induction args with
  | nil => rfl
  | cons e es ih => rw [outlines, ih, List.map_cons]

theorem outline_call (f : Function) (args : List Expr) : (Expr.call f args).outline =
    .node ("CallExpr " ++ typed f.name f.result) (args.map outline) := by
  rw [outline, outlines_eq_map]

end Expr

namespace Stmt

mutual

def outline : Stmt → Outline
  | .block body => .node "BlockStmt" (outlines body)
  | .declare v init => .node ("VariableDeclaration " ++ variableText v) [init.outline]
  | .ifThen test yes => .node "IfStmt" [test.outline, outline yes]
  | .ifElse test yes no => .node "IfStmt" [test.outline, outline yes, outline no]
  | .whileLoop test body => .node "WhileStmt" [test.outline, outline body]
  | .doWhile body test => .node "DoWhileStmt" [outline body, test.outline]
  | .forTo v lower upper body =>
      .node ("ForStmt " ++ variableText v) [lower.outline, upper.outline, outline body]
  | .expr e => .node "ExpressionStmt" [e.outline]
  | .goto target => .leaf ("goto " ++ target.text)
  | .branch target test when =>
      .node ((if when then "gotoIfTrue " else "gotoIfFalse ") ++ target.text) [test.outline]
  | .label here => .leaf (here.text ++ ":")

def outlines : List Stmt → List Outline
  | [] => []
  | s :: ss => outline s :: outlines ss

end

theorem outlines_eq_map (body : List Stmt) : outlines body = body.map outline := by
  induction body with
  | nil => rw [outlines, List.map_nil]
  | cons s ss ih => rw [outlines, ih, List.map_cons]

theorem outline_block (body : List Stmt) :
    (Stmt.block body).outline = .node "BlockStmt" (body.map outline) := by
  rw [outline, outlines_eq_map]

end Stmt

/-- The outline of a flat program. -/
def programOutline (program : List Stmt) : Outline := .node "Program" (Stmt.outlines program)

end ScriptLang.Bound
