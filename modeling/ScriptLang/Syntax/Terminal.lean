/-
# ScriptLang.Syntax.Terminal -- kinds of tokens, and errors about them

A terminal is a token without its value.  A syntax error names the token that
could not be used, or the end of the text, and lists the terminals that could
have stood in its place.
-/
import ScriptLang.Syntax.Operator
import ScriptLang.Token.Lexer

namespace ScriptLang.Syntax

set_option autoImplicit false

/-- The kind of a token. -/
inductive Terminal where
  | keyword (k : Keyword)
  | int | float | string | ident
  | mark (m : Mark)
deriving DecidableEq, Inhabited

namespace Terminal

/-- All terminals, in the order in which they are listed to the user. -/
def all : List Terminal :=
  Keyword.all.map .keyword ++ [.int, .float, .string, .ident] ++ Mark.all.map .mark

def text : Terminal → String
  | .keyword k => k.text
  | .int => "IntLit"
  | .float => "FloatLit"
  | .string => "StringLit"
  | .ident => "Ident"
  | .mark m => m.text

/-- The kind of a token. -/
def of : Token → Terminal
  | .keyword k => .keyword k
  | .mark m => .mark m
  | .int _ => .int
  | .float _ => .float
  | .string _ => .string
  | .ident _ => .ident

/-- Some token of the kind. -/
def sample : Terminal → Token
  | .keyword k => .keyword k
  | .mark m => .mark m
  | .int => .int 0
  | .float => .float (Binary.ofRatio 0 1)
  | .string => .string ""
  | .ident => .ident ""

@[simp] theorem of_sample (t : Terminal) : of t.sample = t := by cases t <;> rfl

/-- The binary operator that the terminal stands for after an operand. -/
def binaryOp? : Terminal → Option BinaryOp
  | .mark m => BinaryOp.ofMark? m
  | _ => none

/-- Whether a statement can start with the terminal. -/
def startsStatement : Terminal → Bool
  | .keyword k => (k matches .varKw | .ifKw | .whileKw | .doKw | .forKw | .trueKw | .falseKw)
  | .int | .float | .string | .ident => true
  | .mark m => (m matches
      .plus | .minus | .plusPlus | .minusMinus | .bang | .tilde | .lparen | .lbrace)

end Terminal

/-- What stands at the place an error is about. -/
structure SyntaxError where
  /-- The token that could not be used; at the end of the text there is none. -/
  found : Option Token
  span : Span
  /-- What could have stood there. -/
  expected : List Terminal

namespace SyntaxError

/-- Whether the text ended too early. -/
def atEnd (e : SyntaxError) : Bool := e.found.isNone

/-- The list of what was expected, or nothing if nothing was. -/
def expectedText (expected : List Terminal) : String :=
  if expected.isEmpty then ""
  else ", expected one of " ++
    String.intercalate ", " (expected.map fun t => "\"" ++ t.text ++ "\"")

def message (e : SyntaxError) : String :=
  match e.found with
  | some t => "Unexpected \"" ++ t.text ++ "\"" ++ expectedText e.expected ++ "."
  | none => "Unexpected end of input" ++ expectedText e.expected ++ "."

end SyntaxError

end ScriptLang.Syntax
