/-
# ScriptLang.Bound.Bind -- the meaning of statements

Statements are bound one after the other: a declaration is visible in the
statements after it, up to the end of its block.  Every declaration gets a fresh
number, also one that is refused because its name is taken.
-/
import ScriptLang.Bound.Resolve

namespace ScriptLang.Bound

set_option autoImplicit false

/-- What binding knows between two statements. -/
structure Binder where
  scope : Scope
  /-- The number of the next variable. -/
  nextId : Nat
  /-- The problems found so far, in order. -/
  problems : List Problem

namespace Binder

/-- Resolve something in the current scope. -/
def check {α : Type} (b : Binder) (f : Scope → Checked α) : α × Binder :=
  let c := f b.scope
  (c.value, { b with problems := b.problems ++ c.problems })

/-- Enter a block. -/
def enter (b : Binder) : Binder := { b with scope := b.scope.push }

/-- Leave a block. -/
def leave (b : Binder) : Binder := { b with scope := b.scope.pop }

def report (b : Binder) (span : Span) (cause : Cause) : Binder :=
  { b with problems := b.problems ++ [⟨span, cause, none⟩] }

/-- The type that was written for a variable. -/
def resolveType (b : Binder) (written : Syntax.Name) : Ty × Binder :=
  match Ty.ofName? written.text with
  | some ty => (ty, b)
  | none => (.unknown, b.report written.span (.unknownType written.text))

/-- Make a variable and declare it.  It is refused, and reported, if it has the name of a function
or of another variable of the block; a missing name is not declared at all. -/
def declare (b : Binder) (name : Syntax.Name) (mutable : Bool) (ty : Ty) : Variable × Binder :=
  let v : Variable := ⟨b.nextId, name.text, ty, mutable, some name.span⟩
  let b := { b with nextId := b.nextId + 1 }
  if name.isMissing then (v, b)
  else if (b.scope.function? name.text).isSome then
    (v, b.report name.span (.alreadyDeclared name.text))
  else
    match b.scope.declare? v with
    | some scope => (v, { b with scope := scope })
    | none => (v, b.report name.span (.alreadyDeclared name.text))

end Binder

/-- The type of a declared variable: the annotated one, or that of its first value. -/
def declaredType (b : Binder) (ty : Option Syntax.Name) (init : Expr) : Ty × Binder :=
  match ty with
  | some written => b.resolveType written
  | none => (init.ty, b)

mutual

def bindStmt : Syntax.Stmt → Binder → Stmt × Binder
  | .block body, b => bindBlock body b
  | .var _ name mutable ty init, b =>
      let (bound, b) := b.check (resolveValue · init)
      let (varTy, b) := declaredType b ty bound
      let (bound, b) := b.check fun _ => convertTo bound init.span varTy false
      let (v, b) := b.declare name mutable varTy
      (.declare v bound, b)
  | .ifThen _ test yes, b =>
      let (test, b) := b.check (resolveTo · test .bool)
      let (yes, b) := bindBlock yes b
      (.ifThen test yes, b)
  | .ifElse _ test yes no, b =>
      let (test, b) := b.check (resolveTo · test .bool)
      let (yes, b) := bindBlock yes b
      let (no, b) := bindBlock no b
      (.ifElse test yes no, b)
  | .whileLoop _ none body, b =>
      let (body, b) := bindBlock body b
      (.whileLoop (.literal (.bool true)) body, b)
  | .whileLoop _ (some test) body, b =>
      let (test, b) := b.check (resolveTo · test .bool)
      let (body, b) := bindBlock body b
      (.whileLoop test body, b)
  | .doWhile _ body test, b =>
      let (body, b) := bindBlock body b
      let (test, b) := b.check (resolveTo · test .bool)
      (.doWhile body test, b)
  | .forTo _ var mutable lower upper body, b =>
      let (lower, b) := b.check (resolveTo · lower .int)
      let (upper, b) := b.check (resolveTo · upper .int)
      let (v, b) := b.enter.declare var mutable .int
      let (body, b) := bindBlock body b
      (.forTo v lower upper body, b.leave)
  | .expr e, b =>
      let (e, b) := b.check (resolve · e)
      (.expr e, b)

/-- Bind the statements of a block in a scope of its own. -/
def bindBlock : Syntax.Block → Binder → Stmt × Binder
  | .mk _ statements, b =>
      let (body, b) := bindStmts statements b.enter
      (.block body, b.leave)

def bindStmts : List Syntax.Stmt → Binder → List Stmt × Binder
  | [], b => ([], b)
  | s :: ss, b =>
      let (first, b) := bindStmt s b
      let (rest, b) := bindStmts ss b
      (first :: rest, b)

end

theorem bindStmt_expr (e : Syntax.Expr) (b : Binder) :
    bindStmt (.expr e) b = (.expr (b.check (resolve · e)).1, (b.check (resolve · e)).2) := by
  rw [bindStmt]

theorem bindStmts_nil (b : Binder) : bindStmts [] b = ([], b) := by rw [bindStmts]

/-- A bound submission. -/
structure Submission where
  /-- The variables declared outside of all blocks, in order. -/
  vars : List Variable
  statement : Stmt
  /-- The problems of the submission itself, and after them those of the submissions before it. -/
  diagnostics : List Diagnostic
deriving Inhabited

/-- The frame of variables that an earlier submission declared. -/
def Submission.frame (s : Submission) : Frame := ⟨s.vars, []⟩

/-- The scope around a submission: those before it, newest first, and the builtins. -/
def scopeAfter (earlier : List Submission) : Scope :=
  match earlier with
  | [] => .builtins
  | newest :: older => ⟨newest.frame, older.map Submission.frame ++ Scope.builtins.frames⟩

/-- Bind a program after earlier submissions, newest first.  Numbers of variables start at
`nextId`; the second result is the next free one. -/
def bindProgram (earlier : List Submission) (nextId : Nat) (source : Source)
    (program : Syntax.Program) : Submission × Nat :=
  let start : Binder := ⟨(scopeAfter earlier).push, nextId, []⟩
  let (body, b) := bindStmts program.statements start
  let own := b.problems.map (Problem.diagnostic source)
  let inherited := (earlier.head?.map Submission.diagnostics).getD []
  (⟨b.scope.declared, .block body, own ++ inherited⟩, b.nextId)

end ScriptLang.Bound
