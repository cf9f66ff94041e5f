/-
# ScriptLang.Bound.Problem -- what can be wrong with a program that reads well

Every problem has a cause, from which its category and its text follow.
-/
import ScriptLang.Bound.Operator
import ScriptLang.Diagnostic

namespace ScriptLang.Bound

set_option autoImplicit false

/-- Why a part of a program has no meaning. -/
inductive Cause where
  | unknownType (name : String)
  | alreadyDeclared (name : String)
  | voidValue
  | unknownVariable (name : String)
  | unknownFunction (name : String)
  | unaryOperand (op : UnaryOp) (operand : Ty)
  | binaryOperands (op : BinaryOp) (left right : Ty)
  /-- Only a variable can be stepped. -/
  | stepTarget
  | readOnly (name : String)
  | missingArgument (parameter function : String)
  | extraArguments (expected given : Nat)
  | noOverload (name : String) (types : List Ty)
  | noConversion (source target : Ty)
  /-- A conversion has to be asked for. -/
  | castNeeded (source target : Ty)

namespace Cause

def category : Cause → Category
  | .unknownType _ | .voidValue | .unaryOperand .. | .binaryOperands .. => .typing
  | .noConversion .. | .castNeeded .. => .typing
  | .alreadyDeclared _ => .declaration
  | .unknownVariable _ | .unknownFunction _ => .unknownKey
  | .stepTarget | .readOnly _ => .assignment
  | .missingArgument .. | .extraArguments .. | .noOverload .. => .argument

def message : Cause → String
  | .unknownType name => "Unknown type \"" ++ name ++ "\"."
  | .alreadyDeclared name =>
      "\"" ++ name ++ "\" was already declared in the current or a previous scope."
  | .voidValue => "Expression must have a non-void value."
  | .unknownVariable name => "Could not find \"" ++ name ++ "\" in the current context."
  | .unknownFunction name =>
      "Function \"" ++ name ++ "\" doesn't exist in the current context."
  | .unaryOperand op operand =>
      "Unary operator '" ++ op.text ++ "' is not defined for type \"" ++ operand.name ++ "\"."
  | .binaryOperands op left right =>
      "Binary operator '" ++ op.text ++ "' is not defined for types \"" ++ left.name ++
        "\" and \"" ++ right.name ++ "\"."
  | .stepTarget => "The operand of an increment operator must be a variable."
  | .readOnly name => "Cannot assign to \"" ++ name ++ "\" since it is a read-only variable."
  | .missingArgument parameter function =>
      "There is no given argument that corresponds to the required formal parameter \"" ++
        parameter ++ "\" of \"" ++ function ++ "\"."
  | .extraArguments expected given =>
      "Expected " ++ toString expected ++ " arguments, but got " ++ toString given ++ "."
  | .noOverload name types =>
      "No overload of \"" ++ name ++ "\" accepts arguments of types (" ++
        String.intercalate ", " (types.map Ty.name) ++ ")."
  | .noConversion source target =>
      "Cannot convert a value of type \"" ++ source.name ++ "\" to a value of type \"" ++
        target.name ++ "\"."
  | .castNeeded source target =>
      "Cannot implicitly convert a value of type \"" ++ source.name ++
        "\" to a value of type \"" ++ target.name ++
        "\". An explicit conversion exists; are you missing a cast?"

end Cause

/-- A problem at a range of the text, with a note that may help. -/
structure Problem where
  span : Span
  cause : Cause
  help : Option String

def Problem.diagnostic (source : Source) (p : Problem) : Diagnostic :=
  .locate source p.span .error p.cause.category p.cause.message p.help

/-- A result together with the problems that were found on the way, in order. -/
structure Checked (α : Type) where
  value : α
  problems : List Problem

namespace Checked

instance : Monad Checked where
  pure a := ⟨a, []⟩
  bind c f :=
    let d := f c.value
    ⟨d.value, c.problems ++ d.problems⟩

/-- Report a problem. -/
def report (span : Span) (cause : Cause) : Checked Unit := ⟨(), [⟨span, cause, none⟩]⟩

/-- Report a problem with a note. -/
def reportWith (span : Span) (cause : Cause) (help : Option String) : Checked Unit :=
  ⟨(), [⟨span, cause, help⟩]⟩

variable {α β : Type}

@[simp] theorem value_pure (a : α) : (pure a : Checked α).value = a := rfl
@[simp] theorem problems_pure (a : α) : (pure a : Checked α).problems = [] := rfl
@[simp] theorem value_bind (c : Checked α) (f : α → Checked β) :
    (c >>= f).value = (f c.value).value := rfl
@[simp] theorem problems_bind (c : Checked α) (f : α → Checked β) :
    (c >>= f).problems = c.problems ++ (f c.value).problems := rfl

end Checked

end ScriptLang.Bound
