/-
# ScriptLang.Proofs.Labels -- labels stay on one line

What stands in the labels of a tree is of four kinds: fixed words, numbers, quoted
strings and names.  Fixed words and numbers have no newline in them, and quoting takes
newlines out.  Names come from tokens, which are words (`Tree.named_ofText`), so the
outline of the syntax tree of any text can be read back, also where the text is wrong
(`Tree.oneLine_outline`).

A bound tree has variables and functions in it.  The functions are built in, and the
variables are named in the texts that were submitted, so the same goes for what a text
is bound to after any chain of texts (`FromTexts.oneLine`), and for its flat program,
which adds numbered labels and hidden variables (`oneLine_program`).  Therefore all that
is shown of texts determines what it shows (`Outline.render_determines`).
-/
import ScriptLang.Proofs.Named
import ScriptLang.Proofs.Nearest
import ScriptLang.Proofs.Outlining
import ScriptLang.Proofs.Rereading
import ScriptLang.Proofs.Scoping
import ScriptLang.Syntax.Outline

namespace ScriptLang

set_option autoImplicit false

open Text (OneLine oneLine_append)

/-! ## Numbers, strings and fixed words -/

theorem oneLine_ofList {cs : List Char} : OneLine (String.ofList cs) ↔ '\n' ∉ cs := by
  rw [OneLine, String.toList_ofList]

theorem newline_not_mem_of_digits {cs : List Char} (digits : ∀ c ∈ cs, c.isDigit = true) :
    '\n' ∉ cs :=
  fun member => absurd (digits '\n' member) (by decide)

theorem isDigit_of_mem_toDigits (n : Nat) : ∀ c ∈ Nat.toDigits 10 n, c.isDigit = true :=
  fun _ member => Nat.isDigit_of_mem_toDigits (by decide) (by decide) member

theorem oneLine_repr (n : Nat) : OneLine (Nat.repr n) := by
  rw [OneLine, Nat.toList_repr]
  exact newline_not_mem_of_digits (isDigit_of_mem_toDigits n)

theorem Word.oneLine_text (n : Int64) : OneLine (Word.text n) := by
  unfold Word.text
  split
  · exact oneLine_append.2 ⟨by decide, oneLine_repr _⟩
  · exact oneLine_repr _

namespace NumberLayout

theorem oneLine_pointed {digits : String} (plain : OneLine digits) (places : Int) (point : Bool) :
    OneLine (pointed digits places point) := by
  have zeros (n : Nat) : OneLine (String.ofList (List.replicate n '0')) :=
    oneLine_ofList.2 fun member => absurd (List.eq_of_mem_replicate member) (by decide)
  unfold pointed
  dsimp only
  split
  · exact oneLine_append.2 ⟨oneLine_append.2 ⟨by decide, zeros _⟩, plain⟩
  · split
    · exact oneLine_append.2 ⟨oneLine_append.2 ⟨plain, zeros _⟩, by cases point <;> decide⟩
    · refine oneLine_append.2 ⟨oneLine_append.2 ⟨oneLine_ofList.2 ?_, by decide⟩,
        oneLine_ofList.2 ?_⟩
      · exact fun member => plain (List.mem_of_mem_take member)
      · exact fun member => plain (List.mem_of_mem_drop member)

/-- Values are written without an exponent, so only digits, a point and a sign are needed. -/
theorem oneLine_shown (x : Float) : OneLine (shown.float x) := by
  have written (d : Decimal) : OneLine (shown.write d) := by
    unfold write
    split
    · decide
    · exact oneLine_pointed (oneLine_repr _) _ _
  unfold float
  split
  · decide
  · split <;> decide
  · exact oneLine_append.2 ⟨by split <;> decide, written _⟩

end NumberLayout

namespace Text

theorem newline_not_mem_hexOf (c : Char) : '\n' ∉ hexOf c := by
  have digit : ∀ d < 16, '\n' ≠ Nat.digitChar d := by decide
  rw [hexOf]
  induction c.toNat using Nat.strong_induction_on with
  | _ n ih =>
      rw [Nat.toDigits_eq_if (by decide)]
      split
      · rename_i low
        exact fun member => digit n low (List.mem_singleton.1 member)
      · rename_i high
        intro member
        rcases List.mem_append.1 member with front | last
        · exact ih (n / 16) (by omega) front
        · exact digit (n % 16) (Nat.mod_lt n (by decide)) (List.mem_singleton.1 last)

theorem newline_not_mem_escapeChar (c : Char) : '\n' ∉ escapeChar c := by
  have coded : '\n' ∉ codeEscape c := by
    have code := newline_not_mem_hexOf c
    simp [codeEscape, code]
  unfold escapeChar
  repeat' split
  any_goals decide
  · exact coded
  · rename_i other _ _ _ _
    exact fun member => other (List.mem_singleton.1 member).symm
  · exact coded

theorem oneLine_quote (s : String) : OneLine (quote s) := by
  rw [OneLine, toList_quote]
  have escaped : '\n' ∉ s.toList.flatMap escapeChar := by
    intro member
    obtain ⟨c, -, inside⟩ := List.mem_flatMap.1 member
    exact newline_not_mem_escapeChar c inside
  simp [escaped]

end Text

theorem Ty.oneLine_name (t : Ty) : OneLine t.name := by cases t <;> decide

theorem UnaryOp.oneLine_text (op : UnaryOp) : OneLine op.text := by cases op <;> decide

theorem BinaryOp.oneLine_text (op : BinaryOp) : OneLine op.text := by cases op <;> decide

theorem Builtin.oneLine_name (b : Builtin) : OneLine b.function.name := by cases b <;> decide

/-! ## Syntax trees -/

namespace Syntax

/-- Whether a name has no newline in it. -/
def Name.OneLine (n : Name) : Prop := Text.OneLine n.text

theorem Literal.oneLine_text (l : Literal) : Text.OneLine l.text := by
  cases l with
  | bool b => cases b <;> decide
  | int n => exact Word.oneLine_text n
  | float x => exact NumberLayout.oneLine_shown x
  | str s => exact Text.oneLine_quote s

theorem Name.oneLine_operandText {n : Name} (plain : n.OneLine) : Text.OneLine n.operandText := by
  unfold Name.operandText
  split
  · decide
  · exact plain

theorem Expr.oneLine_outline {e : Expr} (named : e.Named Name.OneLine) : e.outline.OneLine := by
  induction e using Expr.induction with
  | literal span value =>
      exact Outline.oneLine_leaf.2 (oneLine_append.2 ⟨by decide, value.oneLine_text⟩)
  | name n =>
      exact Outline.oneLine_leaf.2 (oneLine_append.2 ⟨by decide, Name.oneLine_operandText named⟩)
  | unary span op opSpan operand ih =>
      exact Outline.oneLine_node.2 ⟨oneLine_append.2 ⟨by decide, op.oneLine_text⟩,
        List.forall_mem_singleton.2 (ih named)⟩
  | binary span left op opSpan right ihLeft ihRight =>
      exact Outline.oneLine_node.2 ⟨oneLine_append.2 ⟨by decide, op.oneLine_text⟩,
        List.forall_mem_cons.2 ⟨ihLeft named.1, List.forall_mem_singleton.2 (ihRight named.2)⟩⟩
  | assign span target value ih =>
      exact Outline.oneLine_node.2 ⟨oneLine_append.2 ⟨by decide, named.1⟩,
        List.forall_mem_singleton.2 (ih named.2)⟩
  | call span callee args ih =>
      rw [outline_call, Outline.oneLine_node]
      exact ⟨oneLine_append.2 ⟨by decide, named.1⟩, List.forall_mem_map.2 fun e member =>
        ih e member (namedAll_iff.1 named.2 e member)⟩
  | paren span inner ih =>
      exact Outline.oneLine_node.2 ⟨by decide, List.forall_mem_singleton.2 (ih named)⟩

theorem oneLine_declarationText (mutable : Bool) {name : Name} {ty : Option Name}
    (plain : name.OneLine) (plainTy : ∀ t ∈ ty, t.OneLine) :
    Text.OneLine (declarationText mutable name ty) := by
  refine oneLine_append.2 ⟨oneLine_append.2 ⟨by cases mutable <;> decide, plain⟩, ?_⟩
  cases ty with
  | none => decide
  | some t => exact oneLine_append.2 ⟨by decide, plainTy t rfl⟩

theorem Block.oneLine_outline {body : Block} (each : ∀ s ∈ body.statements,
    s.Named Name.OneLine → s.outline.OneLine) (named : body.Named Name.OneLine) :
    body.outline.OneLine := by
  have inner : ∀ s ∈ body.statements, s.outline.OneLine := fun s member =>
    each s member (Block.named_iff.1 named s member)
  cases body
  rw [Block.outline_mk]
  exact Outline.oneLine_node.2 ⟨by decide, List.forall_mem_map.2 inner⟩

theorem Stmt.oneLine_outline {s : Stmt} (named : s.Named Name.OneLine) : s.outline.OneLine := by
  induction s using Stmt.induction with
  | block body ih =>
      rw [Stmt.outline]
      exact Block.oneLine_outline ih named
  | var span name mutable ty init =>
      rw [Stmt.outline, Outline.oneLine_node]
      exact ⟨oneLine_append.2 ⟨by decide, oneLine_declarationText mutable named.1 named.2.1⟩,
        List.forall_mem_singleton.2 (Expr.oneLine_outline named.2.2)⟩
  | ifThen span test yes ih =>
      rw [Stmt.outline, Outline.oneLine_node]
      exact ⟨by decide, List.forall_mem_cons.2 ⟨Expr.oneLine_outline named.1,
        List.forall_mem_singleton.2 (Block.oneLine_outline ih named.2)⟩⟩
  | ifElse span test yes no ihYes ihNo =>
      rw [Stmt.outline, Outline.oneLine_node]
      exact ⟨by decide, List.forall_mem_cons.2 ⟨Expr.oneLine_outline named.1,
        List.forall_mem_cons.2 ⟨Block.oneLine_outline ihYes named.2.1,
          List.forall_mem_singleton.2 (Block.oneLine_outline ihNo named.2.2)⟩⟩⟩
  | whileLoop span test body ih =>
      have inner := Block.oneLine_outline ih named.2
      cases test with
      | none =>
          rw [Stmt.outline, Outline.oneLine_node]
          exact ⟨by decide, List.forall_mem_singleton.2 inner⟩
      | some test =>
          rw [Stmt.outline, Outline.oneLine_node]
          exact ⟨by decide, List.forall_mem_cons.2 ⟨Expr.oneLine_outline (named.1 test rfl),
            List.forall_mem_singleton.2 inner⟩⟩
  | doWhile span body test ih =>
      rw [Stmt.outline, Outline.oneLine_node]
      exact ⟨by decide, List.forall_mem_cons.2 ⟨Block.oneLine_outline ih named.1,
        List.forall_mem_singleton.2 (Expr.oneLine_outline named.2)⟩⟩
  | forTo span var mutable lower upper body ih =>
      rw [Stmt.outline, Outline.oneLine_node]
      exact ⟨oneLine_append.2 ⟨by decide, named.1⟩, List.forall_mem_cons.2
        ⟨Expr.oneLine_outline named.2.1, List.forall_mem_cons.2
          ⟨Expr.oneLine_outline named.2.2.1,
            List.forall_mem_singleton.2 (Block.oneLine_outline ih named.2.2.2)⟩⟩⟩
  | expr e =>
      rw [Stmt.outline, Outline.oneLine_node]
      exact ⟨by decide, List.forall_mem_singleton.2 (Expr.oneLine_outline named)⟩

/-- An identifier is a word, and words have no blanks in them. -/
theorem named_tokensOf (text : String) : ∀ t ∈ tokensOf text, TokenNamed Name.OneLine t := by
  intro t member name read
  obtain ⟨word, rest, -, longest, means⟩ := stands_of_mem member
  rw [read] at longest means
  have same : name.toList = word := means
  obtain ⟨c, cs, start, parts, chars⟩ := Lexer.mem_ident.1 longest.member
  show '\n' ∉ name.toList
  rw [same, chars]
  intro newline
  rcases List.mem_cons.1 newline with rfl | newline
  · exact absurd (Lexer.of_isWordStart start).1 (by decide)
  · exact absurd (Lexer.isBlank_of_isWordPart (parts '\n' newline)) (by decide)

theorem Tree.named_ofText (text : String) :
    ∀ s ∈ (Tree.ofText text).root.statements, s.Named Name.OneLine := by
  have missing : ∀ span, (Name.missing span).OneLine := fun _ => List.not_mem_nil
  exact Reader.named_read missing (named_tokensOf text)

/-- Whatever a text is, the labels of its tree stay on one line. -/
theorem Tree.oneLine_outline (text : String) : (Tree.ofText text).root.outline.OneLine := by
  rw [Program.outline, Stmt.outlines_eq_map, Outline.oneLine_node]
  exact ⟨by decide, List.forall_mem_map.2 fun s member =>
    Stmt.oneLine_outline (Tree.named_ofText text s member)⟩

end Syntax

/-! ## Bound trees -/

/-- Whether no name in a scope has a newline in it. -/
structure Scope.OneLine (s : Scope) : Prop where
  vars : ∀ v ∈ s.vars, Text.OneLine v.name
  functions : ∀ f ∈ s.functions, Text.OneLine f.name

theorem Scope.mem_vars_of_declared {s : Scope} {v : Variable} (own : v ∈ s.declared) : v ∈ s.vars :=
  List.mem_flatMap.2 ⟨s.inner, List.mem_cons_self, own⟩

theorem Scope.OneLine.push {s : Scope} (plain : s.OneLine) : s.push.OneLine where
  vars := by
    rw [vars_push]
    exact plain.vars
  functions := by
    rw [functions_push]
    exact plain.functions

namespace Bound

theorem oneLine_typed {name : String} {ty : Ty} : OneLine (typed name ty) ↔ OneLine name := by
  rw [typed, oneLine_append, oneLine_append]
  exact ⟨fun h => h.1.1, fun h => ⟨⟨h, by decide⟩, ty.oneLine_name⟩⟩

theorem oneLine_variableText {v : Variable} : OneLine (variableText v) ↔ OneLine v.name := by
  have mutability : OneLine (if v.mutable then "mut " else "") := by split <;> decide
  rw [variableText, oneLine_append, oneLine_append, oneLine_append]
  exact ⟨fun h => h.1.1.2, fun h => ⟨⟨⟨mutability, h⟩, by decide⟩, v.ty.oneLine_name⟩⟩

theorem oneLine_literalText (x : Value) : OneLine (literalText x) := by
  have typed {text : String} (plain : OneLine text) : OneLine (text ++ ": " ++ x.ty.name) :=
    oneLine_append.2 ⟨oneLine_append.2 ⟨plain, by decide⟩, x.ty.oneLine_name⟩
  cases x with
  | bool b => exact typed (by cases b <;> decide)
  | int n => exact typed (Word.oneLine_text n)
  | float x => exact typed (NumberLayout.oneLine_shown x)
  | str s => exact oneLine_append.2 ⟨Text.oneLine_quote s, by decide⟩
  | void => exact typed (by decide)

/-- A fixed word before a text makes no difference. -/
theorem oneLine_after {word text : String} (fixed : OneLine word) :
    OneLine (word ++ text) ↔ OneLine text := by
  rw [oneLine_append]
  exact and_iff_right fixed

namespace Expr

@[simp] theorem oneLine_literal (x : Value) : (Expr.literal x).outline.OneLine := by
  rw [outline, Outline.oneLine_leaf, oneLine_after (by decide)]
  exact oneLine_literalText x

@[simp] theorem oneLine_unary {rule : UnaryRule} {e : Expr} :
    (Expr.unary rule e).outline.OneLine ↔ e.outline.OneLine := by
  rw [outline, Outline.oneLine_node, oneLine_after (by decide), oneLine_typed]
  simp [UnaryOp.oneLine_text]

@[simp] theorem oneLine_binary {left right : Expr} {rule : BinaryRule} :
    (Expr.binary left rule right).outline.OneLine ↔
      left.outline.OneLine ∧ right.outline.OneLine := by
  rw [outline, Outline.oneLine_node, oneLine_after (by decide), oneLine_typed]
  simp [BinaryOp.oneLine_text]

@[simp] theorem oneLine_var {v : Variable} : (Expr.var v).outline.OneLine ↔ OneLine v.name := by
  rw [outline, Outline.oneLine_leaf, oneLine_after (by decide), oneLine_typed]

@[simp] theorem oneLine_assign {v : Variable} {e : Expr} :
    (Expr.assign v e).outline.OneLine ↔ OneLine v.name ∧ e.outline.OneLine := by
  rw [outline, Outline.oneLine_node, oneLine_after (by decide), oneLine_typed]
  simp

@[simp] theorem oneLine_call {f : Function} {args : List Expr} :
    (Expr.call f args).outline.OneLine ↔ OneLine f.name ∧ ∀ e ∈ args, e.outline.OneLine := by
  rw [outline_call, Outline.oneLine_node, oneLine_after (by decide), oneLine_typed,
    List.forall_mem_map]

@[simp] theorem oneLine_convert {ty : Ty} {e : Expr} :
    (Expr.convert ty e).outline.OneLine ↔ e.outline.OneLine := by
  rw [outline, Outline.oneLine_node, oneLine_after (by decide)]
  simp [Ty.oneLine_name]

@[simp] theorem oneLine_error : Expr.error.outline.OneLine := by
  rw [outline, Outline.oneLine_leaf]
  decide

end Expr

namespace Stmt

@[simp] theorem oneLine_block {body : List Stmt} :
    (Stmt.block body).outline.OneLine ↔ ∀ s ∈ body, s.outline.OneLine := by
  rw [outline_block, Outline.oneLine_node, List.forall_mem_map]
  exact and_iff_right (by decide)

@[simp] theorem oneLine_declare {v : Variable} {init : Expr} :
    (Stmt.declare v init).outline.OneLine ↔ OneLine v.name ∧ init.outline.OneLine := by
  rw [outline, Outline.oneLine_node, oneLine_after (by decide), oneLine_variableText,
    List.forall_mem_singleton]

@[simp] theorem oneLine_ifThen {test : Expr} {yes : Stmt} :
    (Stmt.ifThen test yes).outline.OneLine ↔ test.outline.OneLine ∧ yes.outline.OneLine := by
  rw [outline, Outline.oneLine_node, List.forall_mem_cons, List.forall_mem_singleton]
  exact and_iff_right (by decide)

@[simp] theorem oneLine_ifElse {test : Expr} {yes no : Stmt} :
    (Stmt.ifElse test yes no).outline.OneLine ↔
      test.outline.OneLine ∧ yes.outline.OneLine ∧ no.outline.OneLine := by
  rw [outline, Outline.oneLine_node, List.forall_mem_cons, List.forall_mem_cons,
    List.forall_mem_singleton]
  exact and_iff_right (by decide)

@[simp] theorem oneLine_whileLoop {test : Expr} {body : Stmt} :
    (Stmt.whileLoop test body).outline.OneLine ↔ test.outline.OneLine ∧ body.outline.OneLine := by
  rw [outline, Outline.oneLine_node, List.forall_mem_cons, List.forall_mem_singleton]
  exact and_iff_right (by decide)

@[simp] theorem oneLine_doWhile {body : Stmt} {test : Expr} :
    (Stmt.doWhile body test).outline.OneLine ↔ body.outline.OneLine ∧ test.outline.OneLine := by
  rw [outline, Outline.oneLine_node, List.forall_mem_cons, List.forall_mem_singleton]
  exact and_iff_right (by decide)

@[simp] theorem oneLine_forTo {v : Variable} {lower upper : Expr} {body : Stmt} :
    (Stmt.forTo v lower upper body).outline.OneLine ↔
      OneLine v.name ∧ lower.outline.OneLine ∧ upper.outline.OneLine ∧ body.outline.OneLine := by
  rw [outline, Outline.oneLine_node, oneLine_after (by decide), oneLine_variableText,
    List.forall_mem_cons, List.forall_mem_cons, List.forall_mem_singleton]

@[simp] theorem oneLine_expr {e : Expr} : (Stmt.expr e).outline.OneLine ↔ e.outline.OneLine := by
  rw [outline, Outline.oneLine_node, List.forall_mem_singleton]
  exact and_iff_right (by decide)

theorem oneLine_label_text (l : Label) : OneLine l.text :=
  oneLine_append.2 ⟨by decide, oneLine_repr l.id⟩

@[simp] theorem oneLine_goto (target : Label) : (Stmt.goto target).outline.OneLine := by
  rw [outline, Outline.oneLine_leaf, oneLine_after (by decide)]
  exact oneLine_label_text target

@[simp] theorem oneLine_branch {target : Label} {test : Expr} {when : Bool} :
    (Stmt.branch target test when).outline.OneLine ↔ test.outline.OneLine := by
  rw [outline, Outline.oneLine_node, oneLine_after (by cases when <;> decide),
    List.forall_mem_singleton]
  exact and_iff_right (oneLine_label_text target)

@[simp] theorem oneLine_label (here : Label) : (Stmt.label here).outline.OneLine := by
  rw [outline, Outline.oneLine_leaf, oneLine_append]
  exact ⟨oneLine_label_text here, by decide⟩

end Stmt

/-! ### Resolving -/

section

variable {e : Expr} (plain : e.outline.OneLine)

include plain

theorem oneLine_requireValue (span : Span) : (requireValue span e).value.outline.OneLine := by
  unfold requireValue
  split
  · exact Expr.oneLine_error
  · exact plain

theorem oneLine_convertTo (span : Span) (ty : Ty) (cast : Bool) :
    (convertTo e span ty cast).value.outline.OneLine := by
  by_cases possible : Conversion.between e.ty ty = .impossible
  · unfold convertTo
    simp only [possible, if_true]
    split <;> exact Expr.oneLine_error
  · rw [convertTo_value possible]
    split
    · exact plain
    · exact Expr.oneLine_convert.2 plain

theorem oneLine_convertArg (span : Span) (p : Parameter) :
    (convertArg span e p).value.outline.OneLine := by
  unfold convertArg
  split
  · exact plain
  · exact oneLine_convertTo plain span p.ty false

theorem oneLine_stepVariable (op : BinaryOp) (span : Span) :
    (stepVariable op e span).value.outline.OneLine := by
  unfold stepVariable
  split
  · dsimp only
    split <;> simpa using plain
  · exact Expr.oneLine_error

theorem oneLine_applyUnary (op : UnaryOp) (opSpan span : Span) :
    (applyUnary op opSpan e span).value.outline.OneLine := by
  unfold applyUnary
  split
  · exact Expr.oneLine_error
  · split
    · exact Expr.oneLine_error
    · split
      · exact oneLine_stepVariable plain _ span
      · exact oneLine_stepVariable plain _ span
      · exact Expr.oneLine_unary.2 plain

theorem oneLine_applyBinary {right : Expr} (plainRight : right.outline.OneLine) (op : BinaryOp)
    (opSpan : Span) : (applyBinary e op opSpan right).value.outline.OneLine := by
  unfold applyBinary
  split
  · exact Expr.oneLine_error
  · split
    · exact Expr.oneLine_binary.2 ⟨plain, plainRight⟩
    · exact Expr.oneLine_error

theorem oneLine_assignTo {scope : Scope} (plainScope : scope.OneLine) (target : Syntax.Name)
    (span : Span) : (assignTo scope target e span).value.outline.OneLine := by
  unfold assignTo
  split
  · exact Expr.oneLine_error
  · split
    · exact plain
    · rename_i v found
      have converted := oneLine_convertTo plain span v.ty false
      have named := plainScope.vars v (Scope.mem_vars_of_find? found)
      dsimp only
      split <;> exact Expr.oneLine_assign.2 ⟨named, converted⟩

end

theorem oneLine_convertArgs {args : List Expr} (plain : ∀ e ∈ args, e.outline.OneLine)
    (spans : List Span) (ps : List Parameter) :
    ∀ e ∈ (convertArgs spans args ps).value, e.outline.OneLine := by
  induction spans, args, ps using convertArgs_induction with
  | ended spans args ps ended =>
      rw [convertArgs_ended ended]
      exact List.forall_mem_nil _
  | more span spans e es p ps ih =>
      obtain ⟨first, others⟩ := List.forall_mem_cons.1 plain
      rw [convertArgs_cons]
      exact List.forall_mem_cons.2 ⟨oneLine_convertArg first span p, ih others⟩

theorem oneLine_applyOverloads {overloads : List Function}
    (named : ∀ f ∈ overloads, OneLine f.name) {args : List Expr}
    (plain : ∀ e ∈ args, e.outline.OneLine) (callee : Syntax.Name) (spans : List Span)
    (span : Span) : (applyOverloads overloads callee spans args span).value.outline.OneLine := by
  unfold applyOverloads
  split
  · exact Expr.oneLine_error
  · split
    · split <;> exact Expr.oneLine_error
    · split
      · rename_i f best
        have candidate := (List.mem_filter.1 (mem_of_bestOverload? best)).1
        exact Expr.oneLine_call.2 ⟨named f candidate, oneLine_convertArgs plain _ _⟩
      · split <;> exact Expr.oneLine_error

section

variable {scope : Scope} (plain : scope.OneLine)

include plain

/-- What an expression resolves to names only what is in scope. -/
theorem oneLine_resolve (e : Syntax.Expr) : (resolve scope e).value.outline.OneLine := by
  induction e using Syntax.Expr.induction with
  | literal span value =>
      rw [resolve]
      exact Expr.oneLine_literal _
  | name n =>
      rw [resolve]
      unfold resolveName
      split
      · exact Expr.oneLine_error
      · split
        · rename_i v found
          exact Expr.oneLine_var.2 (plain.vars v (Scope.mem_vars_of_find? found))
        · exact Expr.oneLine_error
  | unary span op opSpan operand ih =>
      rw [resolve_unary]
      exact oneLine_applyUnary (oneLine_requireValue ih _) op opSpan _
  | binary span left op opSpan right ihLeft ihRight =>
      rw [resolve_binary]
      exact oneLine_applyBinary (oneLine_requireValue ihLeft _) (oneLine_requireValue ihRight _)
        op opSpan
  | assign span target value ih =>
      rw [resolve_assign]
      exact oneLine_assignTo (oneLine_requireValue ih _) plain target _
  | call span callee args ih =>
      have each : ∀ e ∈ (resolveArgs scope args).value, e.outline.OneLine := by
        rw [resolveArgs_eq]
        exact List.forall_mem_map.2 fun e member => oneLine_requireValue (ih e member) _
      rcases call_cases callee args with ⟨t, arg, named, rfl⟩ | other
      · rw [resolve_cast named]
        exact oneLine_convertTo (oneLine_requireValue (ih arg List.mem_cons_self) _) _ _ _
      · rw [resolve_plain other]
        split
        · exact Expr.oneLine_error
        · refine oneLine_applyOverloads (fun f member => ?_) each callee _ span
          exact plain.functions f (Scope.mem_functions_of_overloads member)
  | paren span inner ih =>
      rw [resolve]
      exact ih

theorem oneLine_resolveValue (e : Syntax.Expr) : (resolveValue scope e).value.outline.OneLine := by
  rw [resolveValue, Checked.value_bind]
  exact oneLine_requireValue (oneLine_resolve plain e) e.span

theorem oneLine_resolveTo (e : Syntax.Expr) (ty : Ty) :
    (resolveTo scope e ty).value.outline.OneLine := by
  rw [resolveTo, Checked.value_bind]
  exact oneLine_convertTo (oneLine_resolveValue plain e) e.span ty false

end

/-! ### Binding -/

theorem Scope.OneLine.extends {s s' : Scope} (plain : s.OneLine) (larger : Scope.Extends s s')
    (new : ∀ v ∈ s'.vars, v ∈ s.vars ∨ Text.OneLine v.name) : s'.OneLine where
  vars := fun v member => (new v member).elim (plain.vars v) id
  functions := by
    obtain ⟨vs, rfl⟩ := larger
    exact plain.functions

theorem Binder.oneLine_checkTo {b : Binder} (plain : b.scope.OneLine) (e : Syntax.Expr) (ty : Ty) :
    (b.check (resolveTo · e ty)).1.outline.OneLine :=
  oneLine_resolveTo plain e ty

theorem Binder.oneLine_declare {b : Binder} (plain : b.scope.OneLine) {name : Syntax.Name}
    (named : name.OneLine) (mutable : Bool) (ty : Ty) :
    (b.declare name mutable ty).2.scope.OneLine := by
  refine Scope.OneLine.extends plain (Binder.declare_extends _ _ _ _) fun v member => ?_
  rcases Binder.declare_vars _ _ _ _ v member with old | rfl
  · exact .inl old
  · rw [Binder.declare_variable]
    exact .inr named

/-- A statement leaves a scope whose names can be shown if it can be shown itself. -/
theorem oneLine_scope_bindStmt {s : Syntax.Stmt} {b : Binder} (plain : b.scope.OneLine)
    (shown : (bindStmt s b).1.outline.OneLine) : (bindStmt s b).2.scope.OneLine := by
  refine Scope.OneLine.extends plain (bindStmt_extends s b) fun v member => ?_
  refine (bindStmt_vars s b v member).imp_right fun left => ?_
  unfold Stmt.leaves at left
  split at left
  · rename_i u init same
    rw [same] at shown
    rw [List.mem_singleton.1 left]
    exact (Stmt.oneLine_declare.1 shown).1
  · cases left

theorem oneLine_bindStmts {body : List Syntax.Stmt}
    (each : ∀ s ∈ body, ∀ b : Binder, b.scope.OneLine → s.Named Syntax.Name.OneLine →
      (bindStmt s b).1.outline.OneLine)
    {b : Binder} (plain : b.scope.OneLine) (named : ∀ s ∈ body, s.Named Syntax.Name.OneLine) :
    (∀ s ∈ (bindStmts body b).1, s.outline.OneLine) ∧ (bindStmts body b).2.scope.OneLine := by
  induction body generalizing b with
  | nil =>
      rw [bindStmts_nil]
      exact ⟨List.forall_mem_nil _, plain⟩
  | cons s ss ih =>
      rw [List.forall_mem_cons] at each named
      rw [bindStmts_cons]
      have first := each.1 b plain named.1
      obtain ⟨rest, after⟩ := ih each.2 (oneLine_scope_bindStmt plain first) named.2
      exact ⟨List.forall_mem_cons.2 ⟨first, rest⟩, after⟩

theorem oneLine_bindBlock {body : Syntax.Block}
    (each : ∀ s ∈ body.statements, ∀ b : Binder, b.scope.OneLine →
      s.Named Syntax.Name.OneLine → (bindStmt s b).1.outline.OneLine)
    {b : Binder} (plain : b.scope.OneLine) (named : body.Named Syntax.Name.OneLine) :
    (bindBlock body b).1.outline.OneLine := by
  rw [bindBlock_eq, Stmt.oneLine_block]
  have entered : b.enter.scope.OneLine := plain.push
  exact (oneLine_bindStmts each entered (Syntax.Block.named_iff.1 named)).1

theorem oneLine_bindStmt (s : Syntax.Stmt) (b : Binder) (plain : b.scope.OneLine)
    (named : s.Named Syntax.Name.OneLine) : (bindStmt s b).1.outline.OneLine := by
  induction s using Syntax.Stmt.induction generalizing b with
  | block body ih =>
      rw [bindStmt]
      exact oneLine_bindBlock ih plain named
  | var span name mutable ty init =>
      rw [bindStmt_var]
      refine Stmt.oneLine_declare.2 ⟨?_, ?_⟩
      · rw [Binder.declare_variable]
        exact named.1
      · exact oneLine_convertTo (oneLine_resolveValue plain init) _ _ _
  | ifThen span test yes ih =>
      rw [bindStmt_ifThen]
      exact Stmt.oneLine_ifThen.2
        ⟨Binder.oneLine_checkTo plain test .bool, oneLine_bindBlock ih plain named.2⟩
  | ifElse span test yes no ihYes ihNo =>
      rw [bindStmt_ifElse]
      refine Stmt.oneLine_ifElse.2 ⟨Binder.oneLine_checkTo plain test .bool,
        oneLine_bindBlock ihYes plain named.2.1, oneLine_bindBlock ihNo ?_ named.2.2⟩
      rw [bindBlock_same]
      exact plain
  | whileLoop span test body ih =>
      cases test with
      | none =>
          rw [bindStmt_whileLoop_none]
          exact Stmt.oneLine_whileLoop.2
            ⟨Expr.oneLine_literal _, oneLine_bindBlock ih plain named.2⟩
      | some test =>
          rw [bindStmt_whileLoop_some]
          exact Stmt.oneLine_whileLoop.2
            ⟨Binder.oneLine_checkTo plain test .bool, oneLine_bindBlock ih plain named.2⟩
  | doWhile span body test ih =>
      rw [bindStmt_doWhile]
      refine Stmt.oneLine_doWhile.2 ⟨oneLine_bindBlock ih plain named.1, ?_⟩
      refine Binder.oneLine_checkTo ?_ test .bool
      rw [bindBlock_same]
      exact plain
  | forTo span var mutable lower upper body ih =>
      rw [bindStmt_forTo]
      refine Stmt.oneLine_forTo.2 ⟨?_, Binder.oneLine_checkTo plain lower .int,
        Binder.oneLine_checkTo plain upper .int, oneLine_bindBlock ih ?_ named.2.2.2⟩
      · rw [Binder.declare_variable]
        exact named.1
      · exact Binder.oneLine_declare plain.push named.1 mutable .int
  | expr e =>
      rw [bindStmt_expr]
      exact Stmt.oneLine_expr.2 (oneLine_resolve plain e)

/-! ### Lowering -/

theorem oneLine_loopCode {label : Nat} {test : Expr} {body : List Stmt}
    (plain : test.outline.OneLine) (inner : ∀ s ∈ body, s.outline.OneLine) :
    ∀ s ∈ loopCode label test body, s.outline.OneLine := by
  refine List.forall_mem_cons.2 ⟨Stmt.oneLine_goto _, ?_⟩
  refine List.forall_mem_cons.2 ⟨Stmt.oneLine_label _, List.forall_mem_append.2 ⟨inner, ?_⟩⟩
  refine List.forall_mem_cons.2 ⟨Stmt.oneLine_label _, ?_⟩
  exact List.forall_mem_cons.2 ⟨Stmt.oneLine_branch.2 plain,
    List.forall_mem_singleton.2 (Stmt.oneLine_label _)⟩

theorem oneLine_codeAll {body : List Stmt}
    (each : ∀ s ∈ body, ∀ supply, s.outline.OneLine → ∀ t ∈ s.code supply, t.outline.OneLine)
    (supply : Supply) (plain : ∀ s ∈ body, s.outline.OneLine) :
    ∀ t ∈ codeAll body supply, t.outline.OneLine := by
  induction body generalizing supply with
  | nil =>
      rw [codeAll_nil]
      exact List.forall_mem_nil _
  | cons s ss ih =>
      rw [List.forall_mem_cons] at each plain
      rw [codeAll_cons]
      exact List.forall_mem_append.2 ⟨each.1 supply plain.1, ih each.2 _ plain.2⟩

/-- Lowering adds jumps, labels and hidden variables, and keeps expressions as they are. -/
theorem oneLine_code (s : Stmt) (supply : Supply) (plain : s.outline.OneLine) :
    ∀ t ∈ s.code supply, t.outline.OneLine := by
  induction s using Stmt.induction generalizing supply with
  | block body ih =>
      rw [code_block]
      rw [Stmt.oneLine_block] at plain
      exact oneLine_codeAll ih supply plain
  | declare v init =>
      rw [code_declare]
      exact List.forall_mem_singleton.2 plain
  | ifThen test yes ih =>
      obtain ⟨plainTest, plainYes⟩ := Stmt.oneLine_ifThen.1 plain
      rw [code_ifThen]
      exact List.forall_mem_cons.2 ⟨Stmt.oneLine_branch.2 plainTest,
        List.forall_mem_append.2 ⟨ih supply plainYes,
          List.forall_mem_singleton.2 (Stmt.oneLine_label _)⟩⟩
  | ifElse test yes no ihYes ihNo =>
      obtain ⟨plainTest, plainYes, plainNo⟩ := Stmt.oneLine_ifElse.1 plain
      rw [code_ifElse]
      refine List.forall_mem_cons.2 ⟨Stmt.oneLine_branch.2 plainTest, ?_⟩
      refine List.forall_mem_append.2 ⟨ihYes supply plainYes, ?_⟩
      refine List.forall_mem_cons.2 ⟨Stmt.oneLine_goto _, ?_⟩
      exact List.forall_mem_cons.2 ⟨Stmt.oneLine_label _, List.forall_mem_append.2
        ⟨ihNo _ plainNo, List.forall_mem_singleton.2 (Stmt.oneLine_label _)⟩⟩
  | whileLoop test body ih =>
      obtain ⟨plainTest, plainBody⟩ := Stmt.oneLine_whileLoop.1 plain
      rw [code_whileLoop]
      exact oneLine_loopCode plainTest (ih supply plainBody)
  | doWhile body test ih =>
      obtain ⟨plainBody, plainTest⟩ := Stmt.oneLine_doWhile.1 plain
      rw [code_doWhile]
      exact List.forall_mem_cons.2 ⟨Stmt.oneLine_label _, List.forall_mem_append.2
        ⟨ih supply plainBody, List.forall_mem_singleton.2 (Stmt.oneLine_branch.2 plainTest)⟩⟩
  | forTo v lower upper body ih =>
      obtain ⟨named, plainLower, plainUpper, plainBody⟩ := Stmt.oneLine_forTo.1 plain
      have hidden (id : Nat) : OneLine (boundVariable id).name := by
        show OneLine "upperBound"
        decide
      have test (id : Nat) : (belowBound v (boundVariable id)).outline.OneLine :=
        Expr.oneLine_binary.2 ⟨Expr.oneLine_var.2 named, Expr.oneLine_var.2 (hidden id)⟩
      have step : (increment v).outline.OneLine :=
        Expr.oneLine_assign.2 ⟨named, Expr.oneLine_binary.2
          ⟨Expr.oneLine_var.2 named, Expr.oneLine_literal _⟩⟩
      rw [code_forTo]
      refine List.forall_mem_cons.2 ⟨Stmt.oneLine_declare.2 ⟨named, plainLower⟩, ?_⟩
      refine List.forall_mem_cons.2 ⟨Stmt.oneLine_declare.2 ⟨hidden _, plainUpper⟩, ?_⟩
      refine oneLine_loopCode (test _) (List.forall_mem_append.2 ⟨ih supply plainBody, ?_⟩)
      exact List.forall_mem_singleton.2 (Stmt.oneLine_expr.2 step)
  | expr e =>
      rw [code_expr]
      exact List.forall_mem_singleton.2 plain
  | goto _ | branch _ _ _ | label _ =>
      simp only [Stmt.code, lowerStmt, flatten_of_not_block]
      exact List.forall_mem_singleton.2 plain

theorem oneLine_program {s : Stmt} (plain : s.outline.OneLine) (nextId : Nat) :
    (programOutline (lower s nextId).program).OneLine := by
  rw [lower_program, programOutline, Stmt.outlines_eq_map, Outline.oneLine_node]
  exact ⟨by decide, List.forall_mem_map.2 (oneLine_code s ⟨1, nextId⟩ plain)⟩

/-! ### Submissions -/

/-- Chains of submissions of texts, each bound after those before it. -/
inductive FromTexts : List Submission → Prop where
  | nil : FromTexts []
  | cons {earlier : List Submission} (chain : FromTexts earlier) (nextId : Nat) (text : String) :
      FromTexts (Attempt.bind earlier nextId (.ofText text)).chain

/-- Whether nothing with a newline in it is shown of a submission. -/
structure Submission.OneLine (s : Submission) : Prop where
  statement : s.statement.outline.OneLine
  vars : ∀ v ∈ s.vars, Text.OneLine v.name

theorem oneLine_scopeAfter {chain : List Submission} (plain : ∀ s ∈ chain, s.OneLine) :
    (scopeAfter chain).OneLine where
  vars := by
    intro v member
    obtain ⟨s, listed, own⟩ := List.mem_flatMap.1 (mem_vars_scopeAfter.1 member)
    exact (plain s (List.mem_reverse.1 listed)).vars v own
  functions := by
    intro f member
    rw [functions_scopeAfter] at member
    obtain ⟨b, rfl⟩ := builtins_functions f member
    exact Builtin.oneLine_name b

theorem oneLine_bindProgram {earlier : List Submission} (plain : ∀ s ∈ earlier, s.OneLine)
    (nextId : Nat) (source : Source) {program : Syntax.Program}
    (named : ∀ s ∈ program.statements, s.Named Syntax.Name.OneLine) :
    (bindProgram earlier nextId source program).1.OneLine := by
  have start : (Binder.atStart earlier nextId).scope.OneLine := (oneLine_scopeAfter plain).push
  obtain ⟨body, after⟩ := oneLine_bindStmts (fun s _ => oneLine_bindStmt s) start named
  exact ⟨Stmt.oneLine_block.2 body, fun v own => after.vars v (Scope.mem_vars_of_declared own)⟩

/-- However many texts were submitted before, what a text is bound to can be shown. -/
theorem FromTexts.oneLine {chain : List Submission} (fromTexts : FromTexts chain) :
    ∀ s ∈ chain, s.OneLine := by
  induction fromTexts with
  | nil => exact List.forall_mem_nil _
  | cons chain nextId text ih =>
      have named := Syntax.Tree.named_ofText text
      exact List.forall_mem_cons.2 ⟨oneLine_bindProgram ih nextId _ named, ih⟩

end Bound

/-! ## Reading back -/

namespace Outline

open ScriptLang.Bound (FromTexts programOutline)
open ScriptLang.Syntax (Tree)

/-- A written outline can be read back: it has one line for each node, in preorder, with as many
groups of four characters before the marker as the node is deep, and outlines that are written
alike are the same.  This goes for the syntax trees of all texts, for all that texts are bound to
one after the other, and for their flat programs. -/
theorem render_determines :
    (∀ t u : Outline, t.OneLine → u.OneLine → t.render = u.render → t = u) ∧
    (∀ t : Outline, t.OneLine →
      Text.Lines t.render t.lines ∧ List.Forall₂ Shows t.lines (t.preorder 0)) ∧
    (∀ groups : List Bool, (indent groups).length = 4 * groups.length) ∧
    (∀ text : String, (Tree.ofText text).root.outline.OneLine) ∧
    (∀ text text' : String,
      (Tree.ofText text).root.outline.render = (Tree.ofText text').root.outline.render →
      (Tree.ofText text).root.outline = (Tree.ofText text').root.outline) ∧
    (∀ chain, FromTexts chain → ∀ s ∈ chain, s.statement.outline.OneLine) ∧
    (∀ chain chain', FromTexts chain → FromTexts chain' → ∀ s ∈ chain, ∀ s' ∈ chain',
      s.statement.outline.render = s'.statement.outline.render →
      s.statement.outline = s'.statement.outline) ∧
    (∀ a : Attempt, FromTexts a.chain → (programOutline a.lowered.program).OneLine) ∧
    ∀ a a' : Attempt, FromTexts a.chain → FromTexts a'.chain → a.programText = a'.programText →
      programOutline a.lowered.program = programOutline a'.lowered.program := by
  have statement {chain} (texts : FromTexts chain) : ∀ s ∈ chain, s.statement.outline.OneLine :=
    fun s member => (texts.oneLine s member).statement
  have program (a : Attempt) (texts : FromTexts a.chain) :
      (programOutline a.lowered.program).OneLine :=
    Bound.oneLine_program (statement texts _ List.mem_cons_self) a.nextId
  refine ⟨fun _ _ => render_injective, fun t plain => ⟨lines_render plain, t.lines_shows⟩,
    length_indent, Tree.oneLine_outline, ?_, fun _ => statement, ?_, program, ?_⟩
  · intro text text'
    exact render_injective (Tree.oneLine_outline text) (Tree.oneLine_outline text')
  · intro chain chain' texts texts' s member s' member'
    exact render_injective (statement texts s member) (statement texts' s' member')
  · exact fun a a' texts texts' => render_injective (program a texts) (program a' texts')

/-- An outline with labels that look like indents and markers. -/
def awkward : Outline := .node "│   a" [.node "├── b" [.leaf "└── c"], .leaf "    d"]

/-- A declaration, and two ways to write a statement after it. -/
def declaring : Attempt := .bind [] 0 (.ofText "var n = 2")

def plainly : Attempt := .bind declaring.chain declaring.nextId (.ofText "if n > 1 \x7b n \x7d")

def inParens : Attempt :=
  .bind declaring.chain declaring.nextId (.ofText "if (n > 1) \x7b (n) \x7d")

theorem awkward_determined :
    awkward.OneLine ∧
    awkward.render = "└── │   a\n    ├── ├── b\n    │   └── └── c\n    └──     d\n" ∧
    List.Forall₂ Shows awkward.lines [(0, "│   a"), (1, "├── b"), (2, "└── c"), (1, "    d")] ∧
    (∀ u : Outline, u.OneLine → awkward.render = u.render → awkward = u) ∧
    (Tree.ofText "n=1").root.outline = (Tree.ofText " n = 1 ;").root.outline ∧
    FromTexts plainly.chain ∧ FromTexts inParens.chain ∧
    plainly.submission.statement.outline = inParens.submission.statement.outline ∧
    programOutline plainly.lowered.program = programOutline inParens.lowered.program := by
  have plain : awkward.OneLine := by
    simp only [awkward, leaf, OneLine, AllOneLine]
    decide
  have declared : FromTexts declaring.chain := .cons .nil 0 _
  have texts : FromTexts plainly.chain := .cons declared _ _
  have texts' : FromTexts inParens.chain := .cons declared _ _
  obtain ⟨same, written, -, -, trees, -, statements, -, programs⟩ := render_determines
  exact ⟨plain, by decide +kernel, (written awkward plain).2, fun u => same awkward u plain,
    trees "n=1" " n = 1 ;" (by decide +kernel), texts, texts',
    statements _ _ texts texts' plainly.submission List.mem_cons_self inParens.submission
      List.mem_cons_self (by decide +kernel),
    programs plainly inParens texts texts' (by decide +kernel)⟩

end Outline

end ScriptLang
