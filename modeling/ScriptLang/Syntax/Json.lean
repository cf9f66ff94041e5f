/-
# ScriptLang.Syntax.Json -- syntax trees as documents

A node is an object that holds the node under its kind, and its range beside it.
-/
import ScriptLang.Syntax.Tree
import ScriptLang.Text.Json

namespace ScriptLang

set_option autoImplicit false

def Span.json (s : Span) : Json :=
  .obj [("start", .number (toString s.start)), ("end", .number (toString s.stop))]

namespace Syntax

/-- A node with its range. -/
def spanned (node : Json) (span : Span) : Json := .obj [("node", node), ("span", span.json)]

/-- A number as a document has it; there is no way to write one that is not finite. -/
def floatJson (x : Float) : Json :=
  if x.isFinite then .number (NumberLayout.document.float x) else .null

def Literal.json : Literal → Json
  | .bool b => .obj [("Bool", .bool b)]
  | .int n => .obj [("Int", .number (Word.text n))]
  | .float x => .obj [("Float", floatJson x)]
  | .str s => .obj [("Str", .str s)]

def Name.json (n : Name) : Json :=
  .obj [("text", .str n.text), ("span", n.span.json), ("is_missing", .bool n.isMissing)]

namespace Expr

mutual

def json : Expr → Json
  | .literal span value => spanned (.obj [("Literal", value.json)]) span
  | .name n => spanned (.obj [("Name", n.json)]) n.span
  | .unary span op opSpan operand =>
      spanned (.obj [("Unary", .obj
        [("op", spanned (.str op.name) opSpan), ("operand", json operand)])]) span
  | .binary span left op opSpan right =>
      spanned (.obj [("Binary", .obj
        [("left", json left), ("op", spanned (.str op.name) opSpan), ("right", json right)])]) span
  | .assign span target value =>
      spanned (.obj [("Assignment", .obj [("target", target.json), ("value", json value)])]) span
  | .call span callee args =>
      spanned (.obj [("Call", .obj [("callee", callee.json), ("args", .arr (jsons args))])]) span
  | .paren span inner => spanned (.obj [("Paren", json inner)]) span

def jsons : List Expr → List Json
  | [] => []
  | e :: es => json e :: jsons es

end

end Expr

/-- Nothing, or a part that may be absent. -/
def optional (part : Option Json) : Json := part.getD .null

mutual

def Stmt.json : Stmt → Json
  | .block (.mk span statements) =>
      spanned (.obj [("Block", .obj [("statements", .arr (Stmt.jsons statements))])]) span
  | .var span name mutable ty init =>
      spanned (.obj [("Var", .obj
        [("name", name.json), ("mutable", .bool mutable), ("ty", optional (ty.map Name.json)),
         ("init", init.json)])]) span
  | .ifThen span test yes =>
      spanned (.obj [("If", .obj
        [("cond", test.json), ("then_block", yes.json), ("else_block", .null)])]) span
  | .ifElse span test yes no =>
      spanned (.obj [("If", .obj
        [("cond", test.json), ("then_block", yes.json), ("else_block", no.json)])]) span
  | .whileLoop span test body =>
      spanned (.obj [("While", .obj
        [("cond", optional (test.map Expr.json)), ("body", body.json)])]) span
  | .doWhile span body test =>
      spanned (.obj [("DoWhile", .obj [("body", body.json), ("cond", test.json)])]) span
  | .forTo span var mutable lower upper body =>
      spanned (.obj [("For", .obj
        [("var", var.json), ("mutable", .bool mutable), ("lower", lower.json),
         ("upper", upper.json), ("body", body.json)])]) span
  | .expr e => spanned (.obj [("Expr", e.json)]) e.span

def Block.json : Block → Json
  | .mk span statements => spanned (.obj [("statements", .arr (Stmt.jsons statements))]) span

def Stmt.jsons : List Stmt → List Json
  | [] => []
  | s :: ss => s.json :: Stmt.jsons ss

end

def Program.json (p : Program) : Json :=
  .obj [("statements", .arr (Stmt.jsons p.statements)), ("eof", p.eof.json)]

end Syntax

end ScriptLang
