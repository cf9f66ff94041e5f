/-
# ScriptLang.Proofs.Grammar -- the grammar, and its derivations

The grammar says which sequences of tokens are programs, with no regard to how a
program is read:

    statements := closed* [open]
    closed     := open ";" | block | if | while | for
    open       := var | do | expression
    block      := "{" statements "}"
    expression := name ("=" | "op=") expression | operand 1

An operand of level `n` from one to eleven is a chain of operands of the next
level, joined from the left by the operators of `binaryMarks n`; level twelve has
the prefix operators, level thirteen the increments, and level fourteen what needs
no operator.

A `Derivation` of a phrase is a tree of the productions that lead to it.  It
covers a sequence of tokens (`Derivation.tokens`), and what it says about them is a
syntax tree (`Derivation.tree`), in which a compound assignment is the assignment
of a binary expression.
-/
import ScriptLang.Syntax.Gap
import ScriptLang.Syntax.Terminal

namespace ScriptLang.Syntax

set_option autoImplicit false

/-! ## Operators -/

/-- The binary operators of a level, one being the loosest. -/
def binaryMarks : Nat → List (Mark × BinaryOp)
  | 1 => [(.pipePipe, .or)]
  | 2 => [(.ampAmp, .and)]
  | 3 => [(.pipe, .bitOr)]
  | 4 => [(.caret, .bitXor)]
  | 5 => [(.amp, .bitAnd)]
  | 6 => [(.eqEq, .eq), (.notEq, .ne)]
  | 7 => [(.lt, .lt), (.ltEq, .le), (.gt, .gt), (.gtEq, .ge)]
  | 8 => [(.shl, .shl), (.shr, .shr)]
  | 9 => [(.plus, .add), (.minus, .sub)]
  | 10 => [(.star, .mul), (.slash, .div), (.percent, .mod)]
  | 11 => [(.starStar, .pow)]
  | _ => []

/-- The operators before an operand of level twelve. -/
def prefixMarks : List (Mark × UnaryOp) :=
  [(.plus, .identity), (.minus, .negate), (.tilde, .bitNot), (.bang, .not)]

/-- The operators before an operand of level thirteen. -/
def stepMarks : List (Mark × UnaryOp) := [(.plusPlus, .increment), (.minusMinus, .decrement)]

/-- The marks of compound assignments. -/
def compoundMarks : List (Mark × BinaryOp) :=
  [(.plusEq, .add), (.minusEq, .sub), (.starEq, .mul), (.slashEq, .div), (.starStarEq, .pow),
   (.percentEq, .mod), (.shrEq, .shr), (.shlEq, .shl), (.ampEq, .bitAnd), (.pipeEq, .bitOr),
   (.caretEq, .bitXor)]

/-! ## Tokens -/

/-- An identifier where it stands. -/
structure Word where
  text : String
  span : Span

namespace Word

def token (w : Word) : Located := ⟨.ident w.text, w.span⟩

def name (w : Word) : Name := .read w.text w.span

end Word

/-- The token of a literal. -/
def Literal.token : Literal → Token
  | .bool true => .keyword .trueKw
  | .bool false => .keyword .falseKw
  | .int n => .int n
  | .float x => .float x
  | .str s => .string s

/-- A keyword where it stands. -/
def keywordAt (k : Keyword) (span : Span) : Located := ⟨.keyword k, span⟩

/-- A mark where it stands. -/
def markAt (m : Mark) (span : Span) : Located := ⟨.mark m, span⟩

/-- The word `mut`, if it is written. -/
def mutTokens (mutable : Option Span) : List Located := mutable.toList.map (keywordAt .mutKw)

/-- The colon and the type after it, if they are written. -/
def typeTokens : Option (Span × Word) → List Located
  | none => []
  | some (colon, ty) => [markAt .colon colon, ty.token]

/-! ## Derivations -/

/-- What the productions are about. -/
inductive Phrase where
  | statements
  /-- Statements that are all closed. -/
  | closedList
  /-- A statement that ends in a block or a semicolon. -/
  | closedStmt
  /-- A statement after which a semicolon is due, unless it is the last one. -/
  | openStmt
  | block
  | expression
  | operand (level : Nat)
  /-- One argument of a call or more. -/
  | arguments

/-- What a phrase means. -/
abbrev Phrase.Tree : Phrase → Type
  | .statements | .closedList => List Stmt
  | .closedStmt | .openStmt => Stmt
  | .block => Block
  | .expression | .operand _ => Expr
  | .arguments => List Expr

/-- How a phrase is derived.  Every token of a production is given by the range where it stands. -/
inductive Derivation : Phrase → Type where
  | closedOnly (body : Derivation .closedList) : Derivation .statements
  | openLast (body : Derivation .closedList) (last : Derivation .openStmt) : Derivation .statements
  | nothing : Derivation .closedList
  | append (body : Derivation .closedList) (next : Derivation .closedStmt) : Derivation .closedList
  | ended (s : Derivation .openStmt) (semi : Span) : Derivation .closedStmt
  | block (body : Derivation .block) : Derivation .closedStmt
  | ifThen (keyword : Span) (test : Derivation .expression) (yes : Derivation .block) :
      Derivation .closedStmt
  | ifElse (keyword : Span) (test : Derivation .expression) (yes : Derivation .block)
      (keyword' : Span) (no : Derivation .block) : Derivation .closedStmt
  | whileTrue (keyword : Span) (body : Derivation .block) : Derivation .closedStmt
  | whileTest (keyword : Span) (test : Derivation .expression) (body : Derivation .block) :
      Derivation .closedStmt
  | forTo (keyword : Span) (mutable : Option Span) (var : Word) (eq : Span)
      (lower : Derivation .expression) (till : Span) (upper : Derivation .expression)
      (body : Derivation .block) : Derivation .closedStmt
  | var (keyword : Span) (mutable : Option Span) (name : Word) (ty : Option (Span × Word)) (eq : Span)
      (init : Derivation .expression) : Derivation .openStmt
  | doWhile (keyword : Span) (body : Derivation .block) (keyword' : Span)
      (test : Derivation .expression) : Derivation .openStmt
  | expr (e : Derivation .expression) : Derivation .openStmt
  | braces (opening : Span) (body : Derivation .statements) (closing : Span) : Derivation .block
  | assign (target : Word) (eq : Span) (value : Derivation .expression) : Derivation .expression
  | compound (target : Word) (m : Mark) (op : BinaryOp) (listed : (m, op) ∈ compoundMarks)
      (opSpan : Span) (value : Derivation .expression) : Derivation .expression
  | operation (e : Derivation (.operand 1)) : Derivation .expression
  | binary {level : Nat} (left : Derivation (.operand level)) (m : Mark) (op : BinaryOp)
      (listed : (m, op) ∈ binaryMarks level) (opSpan : Span)
      (right : Derivation (.operand (level + 1))) : Derivation (.operand level)
  | tighter {level : Nat} (loose : level < 14) (e : Derivation (.operand (level + 1))) :
      Derivation (.operand level)
  | unary (m : Mark) (op : UnaryOp) (listed : (m, op) ∈ prefixMarks) (opSpan : Span)
      (operand : Derivation (.operand 12)) : Derivation (.operand 12)
  | step (m : Mark) (op : UnaryOp) (listed : (m, op) ∈ stepMarks) (opSpan : Span)
      (operand : Derivation (.operand 13)) : Derivation (.operand 13)
  | literal (value : Literal) (span : Span) : Derivation (.operand 14)
  | name (w : Word) : Derivation (.operand 14)
  | callBare (callee : Word) (opening closing : Span) : Derivation (.operand 14)
  | call (callee : Word) (opening : Span) (args : Derivation .arguments) (closing : Span) :
      Derivation (.operand 14)
  | paren (opening : Span) (e : Derivation .expression) (closing : Span) : Derivation (.operand 14)
  | one (e : Derivation .expression) : Derivation .arguments
  | another (args : Derivation .arguments) (comma : Span) (e : Derivation .expression) :
      Derivation .arguments

namespace Derivation

/-- The tokens that a derivation covers, in order. -/
@[simp] def tokens : {p : Phrase} → Derivation p → List Located
  | _, .closedOnly body => body.tokens
  | _, .openLast body last => body.tokens ++ last.tokens
  | _, .nothing => []
  | _, .append body next => body.tokens ++ next.tokens
  | _, .ended s semi => s.tokens ++ [markAt .semi semi]
  | _, .block body => body.tokens
  | _, .ifThen keyword test yes => keywordAt .ifKw keyword :: (test.tokens ++ yes.tokens)
  | _, .ifElse keyword test yes keyword' no =>
      keywordAt .ifKw keyword ::
        (test.tokens ++ yes.tokens ++ keywordAt .elseKw keyword' :: no.tokens)
  | _, .whileTrue keyword body => keywordAt .whileKw keyword :: body.tokens
  | _, .whileTest keyword test body => keywordAt .whileKw keyword :: (test.tokens ++ body.tokens)
  | _, .forTo keyword mutable w eq lower till upper body =>
      keywordAt .forKw keyword :: (mutTokens mutable ++ w.token :: markAt .eq eq ::
        (lower.tokens ++ keywordAt .toKw till :: (upper.tokens ++ body.tokens)))
  | _, .var keyword mutable w ty eq init =>
      keywordAt .varKw keyword :: (mutTokens mutable ++ w.token :: (typeTokens ty ++
        markAt .eq eq :: init.tokens))
  | _, .doWhile keyword body keyword' test =>
      keywordAt .doKw keyword :: (body.tokens ++ keywordAt .whileKw keyword' :: test.tokens)
  | _, .expr e => e.tokens
  | _, .braces opening body closing =>
      markAt .lbrace opening :: (body.tokens ++ [markAt .rbrace closing])
  | _, .assign target eq value => target.token :: markAt .eq eq :: value.tokens
  | _, .compound target m _ _ opSpan value => target.token :: markAt m opSpan :: value.tokens
  | _, .operation e => e.tokens
  | _, .binary left m _ _ opSpan right => left.tokens ++ markAt m opSpan :: right.tokens
  | _, .tighter _ e => e.tokens
  | _, .unary m _ _ opSpan operand => markAt m opSpan :: operand.tokens
  | _, .step m _ _ opSpan operand => markAt m opSpan :: operand.tokens
  | _, .literal value span => [⟨value.token, span⟩]
  | _, .name w => [w.token]
  | _, .callBare callee opening closing =>
      [callee.token, markAt .lparen opening, markAt .rparen closing]
  | _, .call callee opening args closing =>
      callee.token :: markAt .lparen opening :: (args.tokens ++ [markAt .rparen closing])
  | _, .paren opening e closing =>
      markAt .lparen opening :: (e.tokens ++ [markAt .rparen closing])
  | _, .one e => e.tokens
  | _, .another args comma e => args.tokens ++ markAt .comma comma :: e.tokens

/-- The syntax tree that a derivation says the tokens form.  A node goes from its first token to its
last one. -/
@[simp] def tree : {p : Phrase} → Derivation p → p.Tree
  | _, .closedOnly body => body.tree
  | _, .openLast body last => body.tree ++ [last.tree]
  | _, .nothing => []
  | _, .append body next => body.tree ++ [next.tree]
  | _, .ended s _ => s.tree
  | _, .block body => .block body.tree
  | _, .ifThen keyword test yes => .ifThen (keyword.through yes.tree.span) test.tree yes.tree
  | _, .ifElse keyword test yes _ no =>
      .ifElse (keyword.through no.tree.span) test.tree yes.tree no.tree
  | _, .whileTrue keyword body => .whileLoop (keyword.through body.tree.span) none body.tree
  | _, .whileTest keyword test body =>
      .whileLoop (keyword.through body.tree.span) (some test.tree) body.tree
  | _, .forTo keyword mutable w _ lower _ upper body =>
      .forTo (keyword.through body.tree.span) w.name mutable.isSome lower.tree upper.tree body.tree
  | _, .var keyword mutable w ty _ init =>
      .var (keyword.through init.tree.span) w.name mutable.isSome (ty.map (·.2.name)) init.tree
  | _, .doWhile keyword body _ test =>
      .doWhile (keyword.through test.tree.span) body.tree test.tree
  | _, .expr e => .expr e.tree
  | _, .braces opening body closing => .mk (opening.through closing) body.tree
  | _, .assign target _ value => .assign (target.span.through value.tree.span) target.name value.tree
  | _, .compound target _ op _ opSpan value =>
      let span := target.span.through value.tree.span
      .assign span target.name (.binary span (.name target.name) op opSpan value.tree)
  | _, .operation e => e.tree
  | _, .binary left _ op _ opSpan right =>
      .binary (left.tree.span.through right.tree.span) left.tree op opSpan right.tree
  | _, .tighter _ e => e.tree
  | _, .unary _ op _ opSpan operand =>
      .unary (opSpan.through operand.tree.span) op opSpan operand.tree
  | _, .step _ op _ opSpan operand =>
      .unary (opSpan.through operand.tree.span) op opSpan operand.tree
  | _, .literal value span => .literal span value
  | _, .name w => .name w.name
  | _, .callBare callee _ closing => .call (callee.span.through closing) callee.name []
  | _, .call callee _ args closing => .call (callee.span.through closing) callee.name args.tree
  | _, .paren opening e closing => .paren (opening.through closing) e.tree
  | _, .one e => [e.tree]
  | _, .another args _ e => args.tree ++ [e.tree]

end Derivation

/-- Whether the grammar derives tokens as a phrase with a certain tree. -/
def Derives (p : Phrase) (ts : List Located) (t : p.Tree) : Prop :=
  ∃ d : Derivation p, d.tokens = ts ∧ d.tree = t

/-! ## Marks and levels -/

theorem of_mem_binaryMarks {level : Nat} {m : Mark} {op : BinaryOp}
    (listed : (m, op) ∈ binaryMarks level) :
    BinaryOp.ofMark? m = some op ∧ op.tier = level := by
  have all : ∀ p ∈ binaryMarks level, BinaryOp.ofMark? p.1 = some p.2 ∧ p.2.tier = level := by
    unfold binaryMarks
    split <;> first | decide | exact List.forall_mem_nil _
  exact all (m, op) listed

theorem mem_binaryMarks {m : Mark} {op : BinaryOp} (found : BinaryOp.ofMark? m = some op) :
    (m, op) ∈ binaryMarks op.tier := by
  cases m <;> cases found <;> simp [binaryMarks, BinaryOp.tier]

theorem mem_prefixMarks {m : Mark} {op : UnaryOp} :
    (m, op) ∈ prefixMarks ↔ UnaryOp.ofMark? m = some op ∧ op.isStep = false := by
  constructor
  · intro listed
    simp only [prefixMarks, List.mem_cons, List.not_mem_nil, or_false, Prod.mk.injEq] at listed
    rcases listed with ⟨rfl, rfl⟩ | ⟨rfl, rfl⟩ | ⟨rfl, rfl⟩ | ⟨rfl, rfl⟩ <;> exact ⟨rfl, rfl⟩
  · rintro ⟨found, plain⟩
    cases m <;> cases found <;> first | decide | cases plain

theorem mem_stepMarks {m : Mark} {op : UnaryOp} :
    (m, op) ∈ stepMarks ↔ UnaryOp.ofMark? m = some op ∧ op.isStep = true := by
  constructor
  · intro listed
    simp only [stepMarks, List.mem_cons, List.not_mem_nil, or_false, Prod.mk.injEq] at listed
    rcases listed with ⟨rfl, rfl⟩ | ⟨rfl, rfl⟩ <;> exact ⟨rfl, rfl⟩
  · rintro ⟨found, steps⟩
    cases m <;> cases found <;> first | decide | cases steps

theorem mem_compoundMarks {m : Mark} {op : BinaryOp} :
    (m, op) ∈ compoundMarks ↔ BinaryOp.ofCompound? m = some op := by
  cases m <;> simp [compoundMarks, BinaryOp.ofCompound?, eq_comm]

theorem tier_bounds (op : BinaryOp) : 1 ≤ op.tier ∧ op.tier ≤ 11 := by
  cases op <;> decide

theorem Derivation.level_le {p : Phrase} (d : Derivation p) {level : Nat} (same : p = .operand level) :
    level ≤ 14 := by
  cases d with
  | @binary n left m op listed opSpan right =>
      cases same
      have tier := (of_mem_binaryMarks listed).2
      have bounds := tier_bounds op
      omega
  | tighter loose e => cases same; omega
  | _ => cases same <;> decide

/-- What is an operand of some level is one of every looser level. -/
theorem Derives.loosen {n level : Nat} (le : level ≤ n) {ts : List Located} {e : Expr}
    (derived : Derives (.operand n) ts e) : Derives (.operand level) ts e := by
  induction le with
  | refl => exact derived
  | step le ih =>
      obtain ⟨d, tokens, tree⟩ := derived
      have loose : _ < 14 := d.level_le rfl
      exact ih ⟨.tighter loose d, tokens, tree⟩

theorem Derives.expression {n : Nat} (pos : 1 ≤ n) {ts : List Located} {e : Expr}
    (derived : Derives (.operand n) ts e) : Derives .expression ts e := by
  obtain ⟨d, tokens, tree⟩ := derived.loosen pos
  exact ⟨.operation d, tokens, tree⟩

end ScriptLang.Syntax
