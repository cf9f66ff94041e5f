/-
# ScriptLang.Value -- what programs compute

A value carries its type.  `void` is the value of calls made for their effect,
and of programs that compute nothing.
-/
import ScriptLang.Number.Layout
import ScriptLang.Number.Word
import ScriptLang.Symbol

namespace ScriptLang

set_option autoImplicit false

inductive Value where
  | bool (b : Bool)
  | int (n : Int64)
  | float (x : Float)
  | str (s : String)
  | void
deriving Inhabited

namespace Value

def ty : Value → Ty
  | .bool _ => .bool
  | .int _ => .int
  | .float _ => .float
  | .str _ => .string
  | .void => .void

/-- The text that printing shows; void shows nothing. -/
def text : Value → String
  | .bool b => if b then "true" else "false"
  | .int n => Word.text n
  | .float x => NumberLayout.shown.float x
  | .str s => s
  | .void => ""

def int? : Value → Option Int64
  | .int n => some n
  | _ => none

/-- The number, an integer being promoted. -/
def float? : Value → Option Float
  | .float x => some x
  | .int n => some n.toFloat
  | _ => none

def bool? : Value → Option Bool
  | .bool b => some b
  | _ => none

def str? : Value → Option String
  | .str s => some s
  | _ => none

def isVoid : Value → Bool
  | .void => true
  | _ => false

/-- Equality of values of one type; numbers that are not a number differ from themselves, and
the two zeros are equal. -/
def equals : Value → Value → Bool
  | .bool a, .bool b => a == b
  | .int a, .int b => a == b
  | .float a, .float b => a == b
  | .str a, .str b => a == b
  | .void, .void => true
  | _, _ => false

end Value

end ScriptLang
