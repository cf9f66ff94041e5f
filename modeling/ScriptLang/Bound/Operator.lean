/-
# ScriptLang.Bound.Operator -- which operands operators take

An operator together with the types it is used at is a rule.  Numbers of the two
kinds mix in arithmetic and comparison but not in equality; a string can be
joined with every simple value, repeated, and shortened.
-/
import ScriptLang.Symbol
import ScriptLang.Syntax.Operator

namespace ScriptLang.Bound

set_option autoImplicit false

/-- A prefix operator at a type. -/
structure UnaryRule where
  op : UnaryOp
  operand : Ty
  result : Ty
deriving DecidableEq, Inhabited

/-- A binary operator at two types. -/
structure BinaryRule where
  op : BinaryOp
  left : Ty
  right : Ty
  result : Ty
deriving DecidableEq, Inhabited

namespace UnaryRule

/-- The operands that prefix operators take; the result has the same type.  On integers `not` is
the factorial. -/
def operands : List (UnaryOp × Ty) :=
  [(.not, .bool), (.identity, .int), (.negate, .int), (.bitNot, .int), (.not, .int),
   (.increment, .int), (.decrement, .int), (.identity, .float), (.negate, .float)]

/-- The rule for an operator at a type. -/
def find? (op : UnaryOp) (operand : Ty) : Option UnaryRule :=
  if (op, operand) ∈ operands then some ⟨op, operand, operand⟩ else none

end UnaryRule

namespace BinaryRule

def isArithmetic : BinaryOp → Bool
  | .add | .sub | .mul | .div | .pow => true
  | _ => false

/-- The operators that work on the bits of their operands. -/
def isBitwise : BinaryOp → Bool
  | .bitAnd | .bitOr | .bitXor => true
  | _ => false

def isShift : BinaryOp → Bool
  | .shl | .shr => true
  | _ => false

def isEquality : BinaryOp → Bool
  | .eq | .ne => true
  | _ => false

def isOrder : BinaryOp → Bool
  | .lt | .le | .gt | .ge => true
  | _ => false

def isLogical : BinaryOp → Bool
  | .and | .or => true
  | _ => false

/-- The type of the result, if the operator takes operands of these types. -/
def result? (op : BinaryOp) : Ty → Ty → Option Ty
  | .bool, .bool => if isLogical op || isEquality op || isBitwise op then some .bool else none
  | .int, .int =>
      if isArithmetic op || op = .mod || isBitwise op || isShift op then some .int
      else if isEquality op || isOrder op then some .bool
      else none
  | .float, .float =>
      if isArithmetic op then some .float
      else if isEquality op || isOrder op then some .bool
      else none
  | .int, .float | .float, .int =>
      if isArithmetic op then some .float else if isOrder op then some .bool else none
  | .string, .string =>
      if op = .add then some .string else if isEquality op then some .bool else none
  | .string, .int => if op = .add || op = .mul || op = .sub then some .string else none
  | .string, .bool | .string, .float | .bool, .string | .int, .string | .float, .string =>
      if op = .add then some .string else none
  | _, _ => none

/-- The rule for an operator at two types. -/
def find? (op : BinaryOp) (left right : Ty) : Option BinaryRule :=
  (result? op left right).map fun result => ⟨op, left, right, result⟩

end BinaryRule

end ScriptLang.Bound
