/-
# ScriptLang.Bound.Conversion -- values of one type where another is due
-/
import ScriptLang.Symbol

namespace ScriptLang.Bound

set_option autoImplicit false

/-- How a value of one type becomes one of another.  An implicit conversion happens by itself;
an explicit one has to be asked for. -/
inductive Conversion where
  | impossible | identity | implicit | explicit
deriving DecidableEq, Inhabited

namespace Conversion

/-- Integers widen to floating point; every simple type can be written as a string and read back. -/
def between (source target : Ty) : Conversion :=
  if source = target then .identity
  else
    match source, target with
    | .int, .float => .implicit
    | .bool, .string | .int, .string | .float, .string => .explicit
    | .string, .bool | .string, .int | .string, .float => .explicit
    | _, _ => .impossible

def isPossible (c : Conversion) : Bool := c ≠ .impossible

/-- Whether the conversion happens by itself. -/
def isImplicit (c : Conversion) : Bool := c = .identity || c = .implicit

end Conversion

end ScriptLang.Bound
