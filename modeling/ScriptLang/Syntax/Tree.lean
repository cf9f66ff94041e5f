/-
# ScriptLang.Syntax.Tree -- expressions and statements as written

Every node knows the range of text it was read from.  A name may be missing: it
then stands where an operand was due and none could be read, and later stages
stay silent about it.  A compound assignment is kept as the assignment of a
binary expression, so there is no node for it.
-/
import ScriptLang.Syntax.Operator
import ScriptLang.Text.Span

namespace ScriptLang.Syntax

set_option autoImplicit false

/-- A literal with its value. -/
inductive Literal where
  | bool (b : Bool)
  | int (n : Int64)
  | float (x : Float)
  | str (s : String)
deriving Inhabited

/-- An identifier, or the stand-in for a missing one. -/
structure Name where
  text : String
  span : Span
  isMissing : Bool
deriving DecidableEq, Inhabited

namespace Name

/-- An identifier that was read. -/
def read (text : String) (span : Span) : Name := ⟨text, span, false⟩

/-- The stand-in for what was due in a range. -/
def missing (span : Span) : Name := ⟨"", span, true⟩

end Name

/-- An expression. -/
inductive Expr where
  | literal (span : Span) (value : Literal)
  | name (name : Name)
  | unary (span : Span) (op : UnaryOp) (opSpan : Span) (operand : Expr)
  | binary (span : Span) (left : Expr) (op : BinaryOp) (opSpan : Span) (right : Expr)
  | assign (span : Span) (target : Name) (value : Expr)
  | call (span : Span) (callee : Name) (args : List Expr)
  | paren (span : Span) (inner : Expr)
deriving Inhabited

/-- The text an expression was read from. -/
def Expr.span : Expr → Span
  | .literal span _ => span
  | .name n => n.span
  | .unary span .. => span
  | .binary span .. => span
  | .assign span .. => span
  | .call span .. => span
  | .paren span _ => span

mutual

/-- A statement. -/
inductive Stmt where
  | block (body : Block)
  | var (span : Span) (name : Name) (mutable : Bool) (ty : Option Name) (init : Expr)
  | ifThen (span : Span) (test : Expr) (yes : Block)
  | ifElse (span : Span) (test : Expr) (yes no : Block)
  /-- Without a test the loop never ends by itself. -/
  | whileLoop (span : Span) (test : Option Expr) (body : Block)
  | doWhile (span : Span) (body : Block) (test : Expr)
  | forTo (span : Span) (var : Name) (mutable : Bool) (lower upper : Expr) (body : Block)
  | expr (e : Expr)

/-- Statements between braces. -/
inductive Block where
  | mk (span : Span) (statements : List Stmt)

end

instance : Inhabited Block := ⟨.mk default []⟩
instance : Inhabited Stmt := ⟨.block default⟩

namespace Block

def span : Block → Span
  | .mk span _ => span

def statements : Block → List Stmt
  | .mk _ statements => statements

end Block

/-- The text a statement was read from; a closing semicolon is not part of it. -/
def Stmt.span : Stmt → Span
  | .block body => body.span
  | .var span .. => span
  | .ifThen span .. => span
  | .ifElse span .. => span
  | .whileLoop span .. => span
  | .doWhile span .. => span
  | .forTo span .. => span
  | .expr e => e.span

/-- The statements of one submission, and the empty range at its end. -/
structure Program where
  statements : List Stmt
  eof : Span
deriving Inhabited

end ScriptLang.Syntax
