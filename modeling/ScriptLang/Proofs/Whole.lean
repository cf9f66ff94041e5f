/-
# ScriptLang.Proofs.Whole -- texts that are read without an error

A missing name comes into a tree only where reading went on after an error.  The
other names are those of tokens (`Config.run?_named`), so a text without
diagnostics has a tree in which no name is missing (`Tree.whole_ofText`).
-/
import ScriptLang.Proofs.Named

namespace ScriptLang.Syntax

set_option autoImplicit false

/-! ## Trees without missing names -/

mutual

/-- Whether no name is missing in an expression. -/
def Expr.Whole : Expr → Prop
  | .literal _ _ => True
  | .name n => n.isMissing = false
  | .unary _ _ _ operand => operand.Whole
  | .binary _ left _ _ right => left.Whole ∧ right.Whole
  | .assign _ target value => target.isMissing = false ∧ value.Whole
  | .call _ callee args => callee.isMissing = false ∧ Expr.WholeAll args
  | .paren _ inner => inner.Whole

def Expr.WholeAll : List Expr → Prop
  | [] => True
  | e :: es => e.Whole ∧ Expr.WholeAll es

end

mutual

/-- Whether no name is missing in a statement. -/
def Stmt.Whole : Stmt → Prop
  | .block body => body.Whole
  | .var _ name _ ty init => name.isMissing = false ∧ (∀ t ∈ ty, t.isMissing = false) ∧ init.Whole
  | .ifThen _ test yes => test.Whole ∧ yes.Whole
  | .ifElse _ test yes no => test.Whole ∧ yes.Whole ∧ no.Whole
  | .whileLoop _ test body => (∀ e ∈ test, e.Whole) ∧ body.Whole
  | .doWhile _ body test => body.Whole ∧ test.Whole
  | .forTo _ var _ lower upper body =>
      var.isMissing = false ∧ lower.Whole ∧ upper.Whole ∧ body.Whole
  | .expr e => e.Whole

def Block.Whole : Block → Prop
  | .mk _ statements => Stmt.WholeAll statements

def Stmt.WholeAll : List Stmt → Prop
  | [] => True
  | s :: ss => s.Whole ∧ Stmt.WholeAll ss

end

theorem Expr.wholeAll_iff {args : List Expr} : Expr.WholeAll args ↔ ∀ e ∈ args, e.Whole := by
  induction args with
  | nil => simp [Expr.WholeAll]
  | cons e es ih => simp [Expr.WholeAll, ih]

theorem Stmt.wholeAll_iff {body : List Stmt} : Stmt.WholeAll body ↔ ∀ s ∈ body, s.Whole := by
  induction body with
  | nil => simp [Stmt.WholeAll]
  | cons s ss ih => simp [Stmt.WholeAll, ih]

/-! ## What is read -/

theorem Expr.whole_of_named {e : Expr} (named : e.Named (·.isMissing = false)) : e.Whole := by
  induction e using Expr.induction with
  | literal span value => trivial
  | name n => exact named
  | unary span op opSpan operand ih => exact ih named
  | binary span left op opSpan right ihLeft ihRight => exact ⟨ihLeft named.1, ihRight named.2⟩
  | assign span target value ih => exact ⟨named.1, ih named.2⟩
  | call span callee args ih =>
      have each := Expr.namedAll_iff.1 named.2
      exact ⟨named.1, Expr.wholeAll_iff.2 fun e member => ih e member (each e member)⟩
  | paren span inner ih => exact ih named

theorem Block.whole_of_named {body : Block} (each : ∀ s ∈ body.statements,
    s.Named (·.isMissing = false) → s.Whole) (named : body.Named (·.isMissing = false)) :
    body.Whole := by
  have whole : ∀ s ∈ body.statements, s.Whole := fun s member =>
    each s member (Block.named_iff.1 named s member)
  cases body
  exact Stmt.wholeAll_iff.2 whole

theorem Stmt.whole_of_named {s : Stmt} (named : s.Named (·.isMissing = false)) : s.Whole := by
  induction s using Stmt.induction with
  | block body ih => exact Block.whole_of_named ih named
  | var span name mutable ty init => exact ⟨named.1, named.2.1, Expr.whole_of_named named.2.2⟩
  | ifThen span test yes ih =>
      exact ⟨Expr.whole_of_named named.1, Block.whole_of_named ih named.2⟩
  | ifElse span test yes no ihYes ihNo =>
      exact ⟨Expr.whole_of_named named.1, Block.whole_of_named ihYes named.2.1,
        Block.whole_of_named ihNo named.2.2⟩
  | whileLoop span test body ih =>
      exact ⟨fun e member => Expr.whole_of_named (named.1 e member),
        Block.whole_of_named ih named.2⟩
  | doWhile span body test ih =>
      exact ⟨Block.whole_of_named ih named.1, Expr.whole_of_named named.2⟩
  | forTo span var mutable lower upper body ih =>
      exact ⟨named.1, Expr.whole_of_named named.2.1, Expr.whole_of_named named.2.2.1,
        Block.whole_of_named ih named.2.2.2⟩
  | expr e => exact Expr.whole_of_named named

/-- What is read without an error is whole. -/
theorem Reader.whole_read {tokens : List Located} (clean : (Reader.read tokens).Clean) :
    ∀ s ∈ (Reader.read tokens).statements, s.Whole := by
  obtain ⟨c, taken, done⟩ := Reader.read_clean_iff.1 ⟨clean, rfl⟩
  have present : ∀ t ∈ tokens, TokenNamed (·.isMissing = false) t := fun _ _ _ _ => rfl
  have named := Config.run?_named Config.named_start present taken
  exact fun s member => Stmt.whole_of_named (Config.finish?_named named done s member)

/-- In the tree of a text without diagnostics no name is missing. -/
theorem Tree.whole_ofText {text : String} (clean : (Tree.ofText text).diagnostics = []) :
    Stmt.WholeAll (Tree.ofText text).root.statements := by
  simp only [Tree.ofText, List.append_eq_nil_iff, List.map_eq_nil_iff] at clean
  rw [Stmt.wholeAll_iff]
  refine Reader.whole_read ⟨clean.2.1, ?_⟩
  exact Option.toList_eq_nil_iff.1 clean.2.2

end ScriptLang.Syntax
