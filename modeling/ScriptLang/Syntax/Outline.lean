/-
# ScriptLang.Syntax.Outline -- syntax trees for the eye

The outline of a syntax tree has one line for every statement and expression.
-/
import ScriptLang.Syntax.Tree
import ScriptLang.Text.Outline

namespace ScriptLang.Syntax

set_option autoImplicit false

/-- A literal as it is shown; strings are quoted. -/
def Literal.text : Literal → String
  | .bool b => if b then "true" else "false"
  | .int n => Word.text n
  | .float x => NumberLayout.shown.float x
  | .str s => Text.quote s

/-- A name as an operand. -/
def Name.operandText (n : Name) : String := if n.isMissing then "<missing>" else n.text

namespace Expr

mutual

def outline : Expr → Outline
  | .literal _ value => .leaf ("LiteralExpr " ++ value.text)
  | .name n => .leaf ("NameExpr " ++ n.operandText)
  | .unary _ op _ operand => .node ("UnaryExpr " ++ op.text) [outline operand]
  | .binary _ left op _ right => .node ("BinaryExpr " ++ op.text) [outline left, outline right]
  | .assign _ target value => .node ("AssignmentExpr " ++ target.text) [outline value]
  | .call _ callee args => .node ("CallExpr " ++ callee.text) (outlines args)
  | .paren _ inner => .node "ParenExpr" [outline inner]

def outlines : List Expr → List Outline
  | [] => []
  | e :: es => outline e :: outlines es

end

theorem outlines_eq_map (args : List Expr) : outlines args = args.map outline := by
  induction args with
  | nil => rfl
  | cons e es ih => rw [outlines, ih, List.map_cons]

theorem outline_call (span : Span) (callee : Name) (args : List Expr) :
    (Expr.call span callee args).outline =
      .node ("CallExpr " ++ callee.text) (args.map outline) := by
  rw [outline, outlines_eq_map]

end Expr

/-- The label of a declaration: mutability, name and annotation. -/
def declarationText (mutable : Bool) (name : Name) (ty : Option Name) : String :=
  (if mutable then "mut " else "") ++ name.text ++
    match ty with
    | none => ""
    | some t => ": " ++ t.text

mutual

def Stmt.outline : Stmt → Outline
  | .block body => body.outline
  | .var _ name mutable ty init =>
      .node ("VariableStmt " ++ declarationText mutable name ty) [init.outline]
  | .ifThen _ test yes => .node "IfStmt" [test.outline, yes.outline]
  | .ifElse _ test yes no => .node "IfStmt" [test.outline, yes.outline, no.outline]
  | .whileLoop _ none body => .node "WhileStmt" [body.outline]
  | .whileLoop _ (some test) body => .node "WhileStmt" [test.outline, body.outline]
  | .doWhile _ body test => .node "DoWhileStmt" [body.outline, test.outline]
  | .forTo _ var _ lower upper body =>
      .node ("ForStmt " ++ var.text) [lower.outline, upper.outline, body.outline]
  | .expr e => .node "ExpressionStmt" [e.outline]

def Block.outline : Block → Outline
  | .mk _ statements => .node "BlockStmt" (Stmt.outlines statements)

def Stmt.outlines : List Stmt → List Outline
  | [] => []
  | s :: ss => s.outline :: Stmt.outlines ss

end

theorem Stmt.outlines_eq_map (body : List Stmt) : Stmt.outlines body = body.map Stmt.outline := by
  induction body with
  | nil => rw [Stmt.outlines, List.map_nil]
  | cons s ss ih => rw [Stmt.outlines, ih, List.map_cons]

theorem Block.outline_mk (span : Span) (statements : List Stmt) :
    (Block.mk span statements).outline = .node "BlockStmt" (statements.map Stmt.outline) := by
  rw [Block.outline, Stmt.outlines_eq_map]

def Program.outline (p : Program) : Outline := .node "CompilationUnit" (Stmt.outlines p.statements)

end ScriptLang.Syntax
