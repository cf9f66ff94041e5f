/-
# ScriptLang.Syntax.Operator -- operators and how tightly they bind

Prefix operators bind tighter than every binary one, and the increments tightest
of all.  The binary operators form eleven tiers, each associating to the left;
a compound assignment is an assignment with one of them inside.
-/
import ScriptLang.Token.Basic

namespace ScriptLang

set_option autoImplicit false

/-- Prefix operators. -/
inductive UnaryOp where
  | identity | negate | bitNot | not | increment | decrement
deriving DecidableEq, Inhabited

/-- Binary operators. -/
inductive BinaryOp where
  | add | sub | mul | div | pow | mod | bitAnd | bitOr | bitXor | shl | shr | and | or | eq | ne
  | lt | le | gt | ge
deriving DecidableEq, Inhabited

namespace UnaryOp

/-- All prefix operators. -/
def all : List UnaryOp :=
  [.identity, .negate, .bitNot, .not, .increment, .decrement]

def text : UnaryOp → String
  | .identity => "+"
  | .negate => "-"
  | .bitNot => "~"
  | .not => "!"
  | .increment => "++"
  | .decrement => "--"

/-- The operator's name in a syntax document. -/
def name : UnaryOp → String
  | .identity => "Identity"
  | .negate => "Negate"
  | .bitNot => "BitNot"
  | .not => "Not"
  | .increment => "Increment"
  | .decrement => "Decrement"

/-- The operators that step a variable. -/
def isStep : UnaryOp → Bool
  | .increment | .decrement => true
  | _ => false

/-- The prefix operator that a mark stands for where an operand is due. -/
def ofMark? : Mark → Option UnaryOp
  | .plus => some .identity
  | .minus => some .negate
  | .tilde => some .bitNot
  | .bang => some .not
  | .plusPlus => some .increment
  | .minusMinus => some .decrement
  | _ => none

end UnaryOp

namespace BinaryOp

/-- All binary operators. -/
def all : List BinaryOp :=
  [.add, .sub, .mul, .div, .pow, .mod, .bitAnd, .bitOr, .bitXor, .shl, .shr, .and, .or, .eq, .ne,
   .lt, .le, .gt, .ge]

def text : BinaryOp → String
  | .add => "+"
  | .sub => "-"
  | .mul => "*"
  | .div => "/"
  | .pow => "**"
  | .mod => "%"
  | .bitAnd => "&"
  | .bitOr => "|"
  | .bitXor => "^"
  | .shl => "<<"
  | .shr => ">>"
  | .and => "&&"
  | .or => "||"
  | .eq => "=="
  | .ne => "!="
  | .lt => "<"
  | .le => "<="
  | .gt => ">"
  | .ge => ">="

/-- The operator's name in a syntax document. -/
def name : BinaryOp → String
  | .add => "Add"
  | .sub => "Sub"
  | .mul => "Mul"
  | .div => "Div"
  | .pow => "Pow"
  | .mod => "Mod"
  | .bitAnd => "BitAnd"
  | .bitOr => "BitOr"
  | .bitXor => "BitXor"
  | .shl => "Shl"
  | .shr => "Shr"
  | .and => "And"
  | .or => "Or"
  | .eq => "Eq"
  | .ne => "Ne"
  | .lt => "Lt"
  | .le => "Le"
  | .gt => "Gt"
  | .ge => "Ge"

/-- How tightly the operator binds, from one for the loosest to eleven. -/
def tier : BinaryOp → Nat
  | .or => 1
  | .and => 2
  | .bitOr => 3
  | .bitXor => 4
  | .bitAnd => 5
  | .eq | .ne => 6
  | .lt | .le | .gt | .ge => 7
  | .shl | .shr => 8
  | .add | .sub => 9
  | .mul | .div | .mod => 10
  | .pow => 11

/-- The binary operator that a mark stands for after an operand. -/
def ofMark? : Mark → Option BinaryOp
  | .plus => some .add
  | .minus => some .sub
  | .star => some .mul
  | .slash => some .div
  | .starStar => some .pow
  | .percent => some .mod
  | .amp => some .bitAnd
  | .pipe => some .bitOr
  | .caret => some .bitXor
  | .shl => some .shl
  | .shr => some .shr
  | .ampAmp => some .and
  | .pipePipe => some .or
  | .eqEq => some .eq
  | .notEq => some .ne
  | .lt => some .lt
  | .ltEq => some .le
  | .gt => some .gt
  | .gtEq => some .ge
  | _ => none

/-- The operator inside the compound assignment that a mark stands for. -/
def ofCompound? : Mark → Option BinaryOp
  | .plusEq => some .add
  | .minusEq => some .sub
  | .starEq => some .mul
  | .slashEq => some .div
  | .starStarEq => some .pow
  | .percentEq => some .mod
  | .shrEq => some .shr
  | .shlEq => some .shl
  | .ampEq => some .bitAnd
  | .pipeEq => some .bitOr
  | .caretEq => some .bitXor
  | _ => none

end BinaryOp

end ScriptLang
