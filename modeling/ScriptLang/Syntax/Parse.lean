/-
# ScriptLang.Syntax.Parse -- from text to syntax trees

There are two ways from a text to its tree.  The strict way (`tokenize`,
`parse`) stops at the first problem: a bad piece of text, then the error that
ended reading, then the first error that reading went on after.  The lenient way
(`Tree.ofText`) always gives a tree, with a diagnostic for every problem.
-/
import ScriptLang.Diagnostic
import ScriptLang.Syntax.Reader

namespace ScriptLang.Syntax

set_option autoImplicit false

/-- Why no tree was given; files may fail to be read before that. -/
inductive CompileError where
  | lexer (message : String) (span : Span)
  | parser (message : String) (span : Span)
  | file (message : String)

namespace CompileError

def message : CompileError → String
  | .lexer message _ => message
  | .parser message _ => message
  | .file message => message

def span? : CompileError → Option Span
  | .lexer _ span => some span
  | .parser _ span => some span
  | .file _ => none

/-- The full text, with the stage and the range. -/
def text : CompileError → String
  | .lexer message span => "Lexer error at " ++ span.text ++ ": " ++ message
  | .parser message span => "Parser error at " ++ span.text ++ ": " ++ message
  | .file message => "IO error: " ++ message

/-- A bad piece of text. -/
def ofBad (text : String) (span : Span) : CompileError :=
  .lexer ("unexpected character: " ++ Text.quote text) span

def ofSyntax (e : SyntaxError) : CompileError := .parser e.message e.span

end CompileError

/-- The tokens of a text without bad pieces. -/
def tokensOf? : List Lexeme → Except CompileError (List Located)
  | [] => .ok []
  | ⟨.token t, span⟩ :: rest =>
      match tokensOf? rest with
      | .ok ts => .ok (⟨t, span⟩ :: ts)
      | .error e => .error e
  | ⟨.bad text, span⟩ :: _ => .error (.ofBad text span)

/-- The tokens of a text, or its first bad piece. -/
def tokenize (text : String) : Except CompileError (List Located) := tokensOf? (Lexeme.all text)

/-- The program that tokens form in a text of `size` bytes, or an error. -/
def parse (size : Nat) (tokens : List Located) : Except CompileError Program :=
  let outcome := Reader.read tokens
  match outcome.failure, outcome.recovered with
  | some e, _ => .error (.ofSyntax e)
  | none, e :: _ => .error (.ofSyntax e)
  | none, [] => .ok ⟨outcome.statements, .point size⟩

/-- The program of a text, or its first problem. -/
def parseText (text : String) : Except CompileError Program :=
  match tokenize text with
  | .ok tokens => parse text.utf8ByteSize tokens
  | .error e => .error e

/-- A text with its tree and whatever is wrong with it. -/
structure Tree where
  source : Source
  root : Program
  diagnostics : List Diagnostic
  /-- Whether the text ended where more was expected. -/
  incomplete : Bool
deriving Inhabited

/-- The diagnostic of a bad piece of text. -/
def badDiagnostic (source : Source) (bad : String × Span) : Diagnostic :=
  .locate source bad.2 .error .malformed ("Bad character input: " ++ Text.quote bad.1 ++ ".") none

def SyntaxError.diagnostic (source : Source) (e : SyntaxError) : Diagnostic :=
  .locate source e.span .error .malformed e.message none

/-- The diagnostics of the bad pieces of a text. -/
def lexicalDiagnostics (source : Source) : List Diagnostic :=
  (Lexeme.all source.text).filterMap fun l => l.bad?.map (badDiagnostic source)

/-- The tokens of a text, whatever stands between them. -/
def tokensOf (text : String) : List Located := (Lexeme.all text).filterMap Lexeme.token?

/-- The tree of a text, with a missing name wherever an operand could not be read. -/
def Tree.ofText (text : String) : Tree :=
  let source : Source := ⟨text⟩
  let outcome := Reader.read (tokensOf text)
  let errors := outcome.recovered ++ outcome.failure.toList
  ⟨source, ⟨outcome.statements, .point source.size⟩,
    lexicalDiagnostics source ++ errors.map (SyntaxError.diagnostic source),
    errors.any SyntaxError.atEnd⟩

end ScriptLang.Syntax
