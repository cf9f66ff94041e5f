/-
# ScriptLang.Run.Fault -- why a run stops early

Some faults can happen to every program: a division by zero, a text that is no
number, an argument out of range, a stream that fails.  The others show that a
program was not bound or lowered as it should have been.
-/
import ScriptLang.Symbol
import ScriptLang.Syntax.Operator
import ScriptLang.Text.Quoted

namespace ScriptLang

set_option autoImplicit false

/-- The kinds of faults. -/
inductive FaultKind where
  | type | divisionByZero | conversion | undefinedVariable | undefinedLabel | argument
  | unexpectedNode | stream
deriving DecidableEq, Inhabited

/-- Why a run stopped. -/
inductive Fault where
  | expected (ty got : Ty)
  | unaryOperand (op : UnaryOp) (operand : Ty)
  | binaryOperands (op : BinaryOp) (left right : Ty)
  | divisionByZero
  | unreadable (text : String) (ty : Ty)
  | undefinedVariable (name : String)
  | undefinedLabel (label : Label)
  /-- A string has fewer characters than are to be removed. -/
  | removal (count : Int64) (length : Nat)
  /-- A string cannot be repeated a negative number of times. -/
  | repetition (count : Int64)
  /-- The repeated string would be too long. -/
  | tooLong (size count : Nat)
  | missingArgument (function : String)
  /-- There is no whole number from zero up to such a bound. -/
  | randomBound (max : Int64)
  /-- A statement or expression that a flat program does not contain. -/
  | unexpectedNode (kind : String)
  | stream (reason : String)
deriving DecidableEq, Inhabited

namespace Fault

def kind : Fault → FaultKind
  | .expected .. | .unaryOperand .. | .binaryOperands .. => .type
  | .divisionByZero => .divisionByZero
  | .unreadable .. => .conversion
  | .undefinedVariable _ => .undefinedVariable
  | .undefinedLabel _ => .undefinedLabel
  | .removal .. | .repetition _ | .tooLong .. | .missingArgument _ | .randomBound _ => .argument
  | .unexpectedNode _ => .unexpectedNode
  | .stream _ => .stream

/-- Most bytes that a repeated string may have. -/
def longestString : Nat := 268435456

/-- The operand types as a fault names them; numbers that are not both integers were promoted. -/
def operandsText : Ty → Ty → String
  | .float, .float | .int, .float | .float, .int => "float operands"
  | left, right => left.name ++ " and " ++ right.name

def message : Fault → String
  | .expected ty got => "type error: expected " ++ ty.name ++ ", got " ++ got.name
  | .unaryOperand op operand =>
      "operator '" ++ op.text ++ "' cannot be applied to " ++ operand.name
  | .binaryOperands op left right =>
      "operator '" ++ op.text ++ "' cannot be applied to " ++ operandsText left right
  | .divisionByZero => "division by zero"
  | .unreadable text ty => "cannot convert " ++ Text.quote text ++ " to " ++ ty.name
  | .undefinedVariable name => "undefined variable: " ++ name
  | .undefinedLabel label => "undefined label: " ++ label.text
  | .removal count length =>
      "cannot remove " ++ Word.text count ++ " characters from a string of length " ++
        toString length
  | .repetition count => "cannot repeat a string " ++ Word.text count ++ " times"
  | .tooLong size count =>
      "repeating a string of " ++ toString size ++ " bytes " ++ toString count ++
        " times exceeds " ++ toString longestString ++ " bytes"
  | .missingArgument function => "missing argument to " ++ function
  | .randomBound max => "random: upper bound must be positive, got " ++ Word.text max
  | .unexpectedNode kind => "unexpected node: " ++ kind
  | .stream reason => "IO error: " ++ reason

/-- The full text. -/
def text (f : Fault) : String := "Runtime error: " ++ f.message

end Fault

end ScriptLang
