/-
# ScriptLang.Symbol -- types, variables, functions and labels

The things that names resolve to.  A variable is known by its number, which no
other declaration of the same session has; its value is kept elsewhere.  All
functions are built in, and some share a name.
-/
import ScriptLang.Text.Span

namespace ScriptLang

set_option autoImplicit false

/-- The types.  `unknown` is the type of what could not be resolved; `any` is the type of
parameters that take every value. -/
inductive Ty where
  | unknown | any | bool | int | float | string | void
deriving DecidableEq, Inhabited

namespace Ty

def name : Ty → String
  | .unknown => "unknown"
  | .any => "any"
  | .bool => "bool"
  | .int => "int"
  | .float => "float"
  | .string => "string"
  | .void => "void"

/-- All types. -/
def all : List Ty := [.unknown, .any, .bool, .int, .float, .string, .void]

/-- The types that can be written in a program. -/
def writable : List Ty := [.bool, .int, .float, .string]

/-- The type that a program means by a name. -/
def ofName? (name : String) : Option Ty := writable.find? (·.name = name)

end Ty

/-- A declared variable. -/
structure Variable where
  id : Nat
  name : String
  ty : Ty
  mutable : Bool
  /-- The declared name; hidden variables have none. -/
  span : Option Span
deriving DecidableEq, Inhabited

/-- A parameter of a function. -/
structure Parameter where
  name : String
  ty : Ty
deriving DecidableEq, Inhabited

/-- What the machine can do by itself. -/
inductive Builtin where
  | print | println | input | stringify | randomInt | randomFloat
deriving DecidableEq, Inhabited

/-- A function; without a builtin it cannot be run. -/
structure Function where
  name : String
  parameters : List Parameter
  result : Ty
  builtin : Option Builtin
deriving DecidableEq, Inhabited

namespace Function

/-- Whether two functions have the same name and take the same types. -/
def sameSignature (f g : Function) : Bool :=
  f.name = g.name && f.parameters.map (·.ty) = g.parameters.map (·.ty)

/-- The written signature, `random(max: int) -> int`. -/
def text (f : Function) : String :=
  let parameters := f.parameters.map fun p => p.name ++ ": " ++ p.ty.name
  f.name ++ "(" ++ String.intercalate ", " parameters ++ ") -> " ++ f.result.name

end Function

namespace Builtin

/-- All builtins, in the order in which they are declared. -/
def all : List Builtin := [.print, .println, .input, .stringify, .randomInt, .randomFloat]

def name : Builtin → String
  | .print => "print"
  | .println => "println"
  | .input => "input"
  | .stringify => "stringify"
  | .randomInt | .randomFloat => "random"

def parameters : Builtin → List Parameter
  | .print | .println | .stringify => [⟨"value", .any⟩]
  | .input => []
  | .randomInt => [⟨"max", .int⟩]
  | .randomFloat => [⟨"max", .float⟩]

def result : Builtin → Ty
  | .print | .println => .void
  | .input | .stringify => .string
  | .randomInt => .int
  | .randomFloat => .float

def function (b : Builtin) : Function := ⟨b.name, b.parameters, b.result, some b⟩

end Builtin

/-- A place in a flat program. -/
structure Label where
  id : Nat
deriving DecidableEq, Inhabited

def Label.text (l : Label) : String := "Label" ++ toString l.id

end ScriptLang
