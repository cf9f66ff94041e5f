/-
# ScriptLang.Diagnostic -- reported problems

A diagnostic is a problem of a source text, with the range it concerns and the
line and column where that range starts.  Diagnostics are collected in the order
in which they are found.
-/
import ScriptLang.Text.Source

namespace ScriptLang

set_option autoImplicit false

/-- How serious a diagnostic is. -/
inductive Severity where
  | info | warn | error
deriving DecidableEq, Inhabited

def Severity.text : Severity → String
  | .info => "Info"
  | .warn => "Warn"
  | .error => "Error"

/-- What a diagnostic is about. -/
inductive Category where
  | malformed | typing | declaration | unknownKey | assignment | argument
deriving DecidableEq, Inhabited

namespace Category

/-- All categories. -/
def all : List Category :=
  [.malformed, .typing, .declaration, .unknownKey, .assignment, .argument]

def text : Category → String
  | .malformed => "SyntaxException"
  | .typing => "TypeException"
  | .declaration => "DeclarationException"
  | .unknownKey => "KeyNotFoundException"
  | .assignment => "AssignmentException"
  | .argument => "ArgumentException"

end Category

/-- One reported problem. -/
structure Diagnostic where
  span : Span
  line : Nat
  column : Nat
  severity : Severity
  category : Category
  message : String
  /-- A note that may help, such as a name spelled alike. -/
  help : Option String
deriving DecidableEq, Inhabited

namespace Diagnostic

/-- A problem of a source text at a range. -/
def locate (source : Source) (span : Span) (severity : Severity) (category : Category)
    (message : String) (help : Option String) : Diagnostic :=
  let position := source.lineCol span.start
  ⟨span, position.1, position.2, severity, category, message, help⟩

def isError (d : Diagnostic) : Bool := d.severity = .error

/-- The one-line form, `[Error 2:5] TypeException: ...`. -/
def text (d : Diagnostic) : String :=
  "[" ++ d.severity.text ++ " " ++ toString d.line ++ ":" ++ toString d.column ++ "] " ++
    d.category.text ++ ": " ++ d.message

def hasErrors (ds : List Diagnostic) : Bool := ds.any isError

/-- How many diagnostics have a category. -/
def countOf (ds : List Diagnostic) (c : Category) : Nat := ds.countP (·.category = c)

end Diagnostic

end ScriptLang
