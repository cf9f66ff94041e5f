/-
# ScriptLang.Proofs.Layout -- nodes along the tokens of a text

Whatever has a range in a syntax tree is a node: the program, statements, blocks,
expressions, names and operators.  A node has its own tokens, from which the grammar
derives it, and its range goes from the first of them to the last.  Its parts stand
along its tokens, one after the other; between them there are keywords, marks and
semicolons (`Node.Layout`).

A compound assignment is the exception, as it is kept as the assignment of a binary
expression.  The expression has no tokens of its own: it has the range of the
assignment, and its left operand is the target (`Node.Combines`).

What the grammar derives is laid out so (`Derivation.laid`).
-/
import Mathlib.Logic.Relation
import ScriptLang.Proofs.Derived
import ScriptLang.Proofs.Unambiguous

namespace ScriptLang.Syntax

set_option autoImplicit false

/-! ## Nodes -/

/-- A piece of a syntax tree that has a range. -/
inductive Node where
  | program (p : Program)
  | stmt (s : Stmt)
  | block (body : Block)
  | expr (e : Expr)
  | name (n : Name)
  | unaryOp (op : UnaryOp) (span : Span)
  | binaryOp (op : BinaryOp) (span : Span)

/-- Whether a range goes from the first of some tokens to the last. -/
structure Spans (own : List Located) (span : Span) : Prop where
  first : own.head?.map (·.span.start) = some span.start
  last : own.getLast?.map (·.span.stop) = some span.stop

namespace Node

/-- The range of a node; that of the program is all of the text. -/
def span : Node → Span
  | .program p => ⟨0, p.eof.stop⟩
  | .stmt s => s.span
  | .block body => body.span
  | .expr e => e.span
  | .name n => n.span
  | .unaryOp _ span => span
  | .binaryOp _ span => span

/-- The nodes right below a node, in the order in which they are written. -/
def parts : Node → List Node
  | .program p => p.statements.map .stmt
  | .stmt (.block body) => [.block body]
  | .stmt (.var _ v _ ty init) => .name v :: (ty.toList.map .name ++ [.expr init])
  | .stmt (.ifThen _ test yes) => [.expr test, .block yes]
  | .stmt (.ifElse _ test yes no) => [.expr test, .block yes, .block no]
  | .stmt (.whileLoop _ test body) => test.toList.map .expr ++ [.block body]
  | .stmt (.doWhile _ body test) => [.block body, .expr test]
  | .stmt (.forTo _ v _ lower upper body) => [.name v, .expr lower, .expr upper, .block body]
  | .stmt (.expr e) => [.expr e]
  | .block body => body.statements.map .stmt
  | .expr (.literal ..) => []
  | .expr (.name n) => [.name n]
  | .expr (.unary _ op opSpan operand) => [.unaryOp op opSpan, .expr operand]
  | .expr (.binary _ left op opSpan right) => [.expr left, .binaryOp op opSpan, .expr right]
  | .expr (.assign _ target value) => [.name target, .expr value]
  | .expr (.call _ callee args) => .name callee :: args.map .expr
  | .expr (.paren _ inner) => [.expr inner]
  | .name _ | .unaryOp .. | .binaryOp .. => []

/-- Whether a node is another one or stands somewhere below it. -/
def Contains : Node → Node → Prop := Relation.ReflTransGen fun n part => part ∈ n.parts

/-- Whether the grammar derives a node from tokens.  A semicolon is no token of the statement before
it. -/
def DerivedFrom (own : List Located) : Node → Prop
  | .program p => Derives .statements own p.statements
  | .stmt s =>
      match s.isOpen with
      | true => Derives .openStmt own s
      | false => Derives .closedStmt own s
  | .block body => Derives .block own body
  | .expr e => Derives .expression own e
  | .name n => ∃ w : Word, n = w.name ∧ own = [w.token]
  | .unaryOp op span => ∃ m, UnaryOp.ofMark? m = some op ∧ own = [markAt m span]
  | .binaryOp op span =>
      ∃ m, (BinaryOp.ofMark? m = some op ∨ BinaryOp.ofCompound? m = some op) ∧ own = [markAt m span]

/-- Whether tokens are a compound assignment, which is kept as the assignment of a binary
expression. -/
inductive Combines : List Located → Node → Node → Prop
  | mk (target : Word) {m : Mark} {op : BinaryOp} (listed : (m, op) ∈ compoundMarks) (opSpan : Span)
      {rest : List Located} {right : Expr} (value : Derives .expression rest right) :
      Combines (target.token :: markAt m opSpan :: rest)
        (.expr (.assign (target.span.through right.span) target.name
          (.binary (target.span.through right.span) (.name target.name) op opSpan right)))
        (.expr (.binary (target.span.through right.span) (.name target.name) op opSpan right))

mutual

/-- Whether a node goes from the first of its tokens to the last, with its parts along them. -/
inductive Layout : List Located → Node → Prop
  | node {own : List Located} {n : Node} (derived : n.DerivedFrom own) (spans : Spans own n.span)
      (parts : Layouts own n.parts) : Layout own n
  | compound {own : List Located} {whole inner : Node} (combines : Combines own whole inner)
      (derived : whole.DerivedFrom own) (spans : Spans own whole.span)
      (parts : Layouts own inner.parts) : Layout own whole

/-- Whether nodes stand one after the other along tokens; others may stand between them. -/
inductive Layouts : List Located → List Node → Prop
  | nil : Layouts [] []
  | skip {ts : List Located} {ns : List Node} (t : Located) (later : Layouts ts ns) :
      Layouts (t :: ts) ns
  | part {own ts : List Located} {n : Node} {ns : List Node} (first : Layout own n)
      (later : Layouts ts ns) : Layouts (own ++ ts) (n :: ns)

end

theorem Layout.derived {own : List Located} {n : Node} (layout : Layout own n) :
    n.DerivedFrom own := by
  cases layout with
  | node derived => exact derived
  | compound _ derived => exact derived

theorem Layout.spans {own : List Located} {n : Node} (layout : Layout own n) :
    Spans own n.span := by
  cases layout with
  | node _ spans => exact spans
  | compound _ _ spans => exact spans

namespace Layouts

variable {ts us : List Located} {ns ms : List Node}

theorem skipAll (ts : List Located) (later : Layouts us ns) : Layouts (ts ++ us) ns := by
  induction ts with
  | nil => exact later
  | cons t ts ih => exact .skip t ih

theorem none (ts : List Located) : Layouts ts [] := by
  rw [← List.append_nil ts]
  exact skipAll ts .nil

theorem one {own : List Located} {n : Node} (layout : Layout own n) : Layouts own [n] := by
  rw [← List.append_nil own]
  exact .part layout .nil

theorem append {us : List Located} {ms : List Node} (second : Layouts us ms) :
    {ts : List Located} → {ns : List Node} → Layouts ts ns → Layouts (ts ++ us) (ns ++ ms)
  | _, _, .nil => second
  | _, _, .skip t later => .skip t (append second later)
  | _, _, .part first later => by
      rw [List.append_assoc]
      exact .part first (append second later)

theorem before (layouts : Layouts ts ns) (us : List Located) : Layouts (ts ++ us) ns := by
  rw [← List.append_nil ns]
  exact append (none us) layouts

end Layouts

end Node

/-! ## Ranges -/

theorem spans_single (t : Located) : Spans [t] t.span := ⟨rfl, rfl⟩

/-- From one range to another, with the tokens between them. -/
theorem Spans.through {own own' whole : List Located} {span span' : Span} (first : Spans own span)
    (last : Spans own' span') (between : List Located) (split : whole = own ++ (between ++ own')) :
    Spans whole (span.through span') where
  first := by
    obtain ⟨t, found, start⟩ := Option.map_eq_some_iff.1 first.first
    rw [split, List.head?_append, found]
    exact congrArg some start
  last := by
    obtain ⟨t, found, stop⟩ := Option.map_eq_some_iff.1 last.last
    rw [split, ← List.append_assoc, List.getLast?_append, found]
    exact congrArg some stop

/-- A node that starts with a token and ends with another node. -/
theorem Spans.ofToken {own whole : List Located} {span : Span} (t : Located) (last : Spans own span)
    (between : List Located) (split : whole = t :: (between ++ own)) :
    Spans whole (t.span.through span) :=
  .through (spans_single t) last between split

namespace Node

/-! ## Names and operators -/

theorem layout_name (w : Word) : Layout [w.token] (.name w.name) :=
  .node ⟨w, rfl, rfl⟩ (spans_single w.token) (.none _)

theorem layout_nameExpr (w : Word) : Layout [w.token] (.expr (.name w.name)) := by
  have derived : Derives (.operand 14) [w.token] (.name w.name) := ⟨.name w, rfl, rfl⟩
  exact .node (derived.expression (by decide)) (spans_single w.token) (.one (layout_name w))

theorem layout_unaryOp {m : Mark} {op : UnaryOp} (found : UnaryOp.ofMark? m = some op)
    (span : Span) : Layout [markAt m span] (.unaryOp op span) :=
  .node ⟨m, found, rfl⟩ (spans_single (markAt m span)) (.none _)

theorem layout_binaryOp {m : Mark} {op : BinaryOp}
    (found : BinaryOp.ofMark? m = some op ∨ BinaryOp.ofCompound? m = some op) (span : Span) :
    Layout [markAt m span] (.binaryOp op span) :=
  .node ⟨m, found, rfl⟩ (spans_single (markAt m span)) (.none _)

end Node

/-! ## Derived nodes -/

/-- Whether what a phrase means is laid out along tokens. -/
def Phrase.Laid : (p : Phrase) → List Located → p.Tree → Prop
  | .statements, own, ss => Node.Layouts own (List.map Node.stmt ss)
  | .closedList, own, ss => Node.Layouts own (List.map Node.stmt ss)
  | .closedStmt, own, s => ∃ front rest, own = front ++ rest ∧ Node.Layout front (.stmt s)
  | .openStmt, own, s => Node.Layout own (.stmt s)
  | .block, own, body => Node.Layout own (.block body)
  | .expression, own, e => Node.Layout own (.expr e)
  | .operand _, own, e => Node.Layout own (.expr e)
  | .arguments, own, es => Node.Layouts own (List.map Node.expr es)

namespace Derivation

open Node

theorem laid_operand {level : Nat} {own : List Located} {e : Expr} (pos : 1 ≤ level)
    (derived : Derives (.operand level) own e) (spans : Spans own e.span)
    (parts : Layouts own (Node.parts (.expr e))) : Layout own (.expr e) :=
  .node (derived.expression pos) spans parts

theorem laid_unary {level : Nat} {m : Mark} {op : UnaryOp} (found : UnaryOp.ofMark? m = some op)
    (opSpan : Span) {own : List Located} {e : Expr} (operand : Layout own (.expr e)) (pos : 1 ≤ level)
    (derived : Derives (.operand level) (markAt m opSpan :: own)
      (.unary (opSpan.through e.span) op opSpan e)) :
    Layout (markAt m opSpan :: own) (.expr (.unary (opSpan.through e.span) op opSpan e)) :=
  laid_operand pos derived (.ofToken (markAt m opSpan) operand.spans [] rfl)
    (.part (layout_unaryOp found opSpan) (.one operand))

/-- A statement that ends with its last part has all the tokens of its derivation. -/
theorem laid_closed {d : Derivation .closedStmt} (layout : Layout d.tokens (.stmt d.tree)) :
    Phrase.closedStmt.Laid d.tokens d.tree :=
  ⟨d.tokens, [], (List.append_nil _).symm, layout⟩

/-- What a derivation says is laid out along its tokens. -/
theorem laid {p : Phrase} (d : Derivation p) : p.Laid d.tokens d.tree := by
  induction d with
  | closedOnly body ih => exact ih
  | openLast body last ih ih' =>
      show Layouts (body.tokens ++ last.tokens) (List.map Node.stmt (body.tree ++ [last.tree]))
      rw [List.map_append]
      exact .append (.one ih') ih
  | nothing => exact .nil
  | append body next ih ih' =>
      obtain ⟨front, rest, same, layout⟩ := ih'
      show Layouts (body.tokens ++ next.tokens) (List.map Node.stmt (body.tree ++ [next.tree]))
      rw [List.map_append, same]
      exact .append (.part layout (.none rest)) ih
  | ended s semi ih => exact ⟨s.tokens, [markAt .semi semi], rfl, ih⟩
  | block body ih => exact laid_closed (.node ⟨.block body, rfl, rfl⟩ ih.spans (.one ih))
  | ifThen keyword test yes ih ih' =>
      exact laid_closed (.node ⟨.ifThen keyword test yes, rfl, rfl⟩
        (.ofToken (keywordAt .ifKw keyword) ih'.spans test.tokens rfl)
        (.skip _ (.part ih (.one ih'))))
  | ifElse keyword test yes keyword' no ih ih' ih'' =>
      exact laid_closed (.node ⟨.ifElse keyword test yes keyword' no, rfl, rfl⟩
        (.ofToken (keywordAt .ifKw keyword) ih''.spans
          (test.tokens ++ yes.tokens ++ [keywordAt .elseKw keyword']) (by simp))
        (.skip _ (.append (.skip _ (.one ih'')) (.part ih (.one ih')))))
  | whileTrue keyword body ih =>
      exact laid_closed (.node ⟨.whileTrue keyword body, rfl, rfl⟩
        (.ofToken (keywordAt .whileKw keyword) ih.spans [] rfl) (.skip _ (.one ih)))
  | whileTest keyword test body ih ih' =>
      exact laid_closed (.node ⟨.whileTest keyword test body, rfl, rfl⟩
        (.ofToken (keywordAt .whileKw keyword) ih'.spans test.tokens rfl)
        (.skip _ (.part ih (.one ih'))))
  | forTo keyword mutable w eq lower till upper body ih ih' ih'' =>
      exact laid_closed (.node ⟨.forTo keyword mutable w eq lower till upper body, rfl, rfl⟩
        (.ofToken (keywordAt .forKw keyword) ih''.spans
          (mutTokens mutable ++ w.token :: markAt .eq eq ::
            (lower.tokens ++ keywordAt .toKw till :: upper.tokens)) (by simp))
        (.skip _ (.skipAll _ (.part (layout_name w) (.skip _ (.part ih
          (.skip _ (.part ih' (.one ih'')))))))))
  | var keyword mutable w ty eq init ih =>
      refine .node ⟨.var keyword mutable w ty eq init, rfl, rfl⟩
        (.ofToken (keywordAt .varKw keyword) ih.spans
          (mutTokens mutable ++ w.token :: (typeTokens ty ++ [markAt .eq eq])) (by simp))
        (.skip _ (.skipAll _ (.part (layout_name w) ?_)))
      cases ty with
      | none => exact .skip _ (.one ih)
      | some ty => exact .skip _ (.part (layout_name ty.2) (.skip _ (.one ih)))
  | doWhile keyword body keyword' test ih ih' =>
      exact .node ⟨.doWhile keyword body keyword' test, rfl, rfl⟩
        (.ofToken (keywordAt .doKw keyword) ih'.spans
          (body.tokens ++ [keywordAt .whileKw keyword']) (by simp))
        (.skip _ (.part ih (.skip _ (.one ih'))))
  | expr e ih => exact .node ⟨.expr e, rfl, rfl⟩ ih.spans (.one ih)
  | braces opening body closing ih =>
      exact .node ⟨.braces opening body closing, rfl, rfl⟩
        (.ofToken (markAt .lbrace opening) (spans_single (markAt .rbrace closing)) body.tokens rfl)
        (.skip _ (.before ih _))
  | assign target eq value ih =>
      exact .node ⟨.assign target eq value, rfl, rfl⟩
        (.ofToken target.token ih.spans [markAt .eq eq] rfl)
        (.part (layout_name target) (.skip _ (.one ih)))
  | compound target m op listed opSpan value ih =>
      exact .compound (.mk target listed opSpan ⟨value, rfl, rfl⟩)
        ⟨.compound target m op listed opSpan value, rfl, rfl⟩
        (.ofToken target.token ih.spans [markAt m opSpan] rfl)
        (.part (layout_nameExpr target)
          (.part (layout_binaryOp (.inr (mem_compoundMarks.1 listed)) opSpan) (.one ih)))
  | operation e ih => exact ih
  | @binary level left m op listed opSpan right ih ih' =>
      have marked := of_mem_binaryMarks listed
      have pos : 1 ≤ level := marked.2 ▸ (tier_bounds op).1
      exact laid_operand pos ⟨.binary left m op listed opSpan right, rfl, rfl⟩
        (.through ih.spans ih'.spans [markAt m opSpan] rfl)
        (.part ih (.part (layout_binaryOp (.inl marked.1) opSpan) (.one ih')))
  | tighter loose e ih => exact ih
  | unary m op listed opSpan operand ih =>
      exact laid_unary (mem_prefixMarks.1 listed).1 opSpan ih (by decide)
        ⟨.unary m op listed opSpan operand, rfl, rfl⟩
  | step m op listed opSpan operand ih =>
      exact laid_unary (mem_stepMarks.1 listed).1 opSpan ih (by decide)
        ⟨.step m op listed opSpan operand, rfl, rfl⟩
  | literal value span =>
      exact laid_operand (by decide) ⟨.literal value span, rfl, rfl⟩
        (spans_single ⟨value.token, span⟩) (.none _)
  | name w => exact layout_nameExpr w
  | callBare callee opening closing =>
      exact laid_operand (by decide) ⟨.callBare callee opening closing, rfl, rfl⟩
        (.ofToken callee.token (spans_single (markAt .rparen closing)) [markAt .lparen opening] rfl)
        (.part (layout_name callee) (.none _))
  | call callee opening args closing ih =>
      exact laid_operand (by decide) ⟨.call callee opening args closing, rfl, rfl⟩
        (.ofToken callee.token (spans_single (markAt .rparen closing))
          (markAt .lparen opening :: args.tokens) rfl)
        (.part (layout_name callee) (.skip _ (.before ih _)))
  | paren opening e closing ih =>
      exact laid_operand (by decide) ⟨.paren opening e closing, rfl, rfl⟩
        (.ofToken (markAt .lparen opening) (spans_single (markAt .rparen closing)) e.tokens rfl)
        (.skip _ (.part ih (.none _)))
  | one e ih => exact .one ih
  | another args comma e ih ih' =>
      show Layouts (args.tokens ++ markAt .comma comma :: e.tokens)
        (List.map Node.expr (args.tree ++ [e.tree]))
      rw [List.map_append]
      exact .append (.skip _ (.one ih')) ih

end Derivation

end ScriptLang.Syntax
