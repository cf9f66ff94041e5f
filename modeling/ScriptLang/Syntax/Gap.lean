/-
# ScriptLang.Syntax.Gap -- what stands to the left of an operand

While a program is read, everything before the current token is kept as the left
context of the place where the next operand is due.  A `Gap` is such a place: an
operator with its left operand, an open parenthesis, a call with the arguments
read so far, and in the end a `Clause` -- the part of a statement that holds an
expression -- in a `Listing`, the list of statements being read.

Filling a gap with an operand gives an operand for the gap around it, as far as
the next token allows: `absorb` stops at the first operator that binds looser,
`close` at the first bracket or clause.
-/
import ScriptLang.Syntax.Tree

namespace ScriptLang.Syntax

set_option autoImplicit false

/-- What a block belongs to. -/
inductive Owner where
  | plain
  | thenPart (keyword : Span) (test : Expr)
  | elsePart (keyword : Span) (test : Expr) (yes : Block)
  | whileBody (keyword : Span) (test : Option Expr)
  | doBody (keyword : Span)
  | forBody (keyword : Span) (mutable : Bool) (var : Name) (lower upper : Expr)

/-- A list of statements being read, newest first, and the lists around it. -/
inductive Listing where
  | program (done : List Stmt)
  | block (outer : Listing) (owner : Owner) (opening : Span) (done : List Stmt)

namespace Listing

def done : Listing → List Stmt
  | .program done => done
  | .block _ _ _ done => done

/-- Whether no statement has been read yet. -/
def isFresh (l : Listing) : Bool := l.done.isEmpty

/-- Add a statement. -/
def push (s : Stmt) : Listing → Listing
  | .program done => .program (s :: done)
  | .block outer owner opening done => .block outer owner opening (s :: done)

end Listing

/-- The part of a statement that an expression is read for. -/
inductive Clause where
  /-- The expression is the statement; another statement may start here too. -/
  | statement
  | varInit (keyword : Span) (mutable : Bool) (name : Name) (ty : Option Name)
  | ifTest (keyword : Span)
  /-- The body may follow at once. -/
  | whileTest (keyword : Span)
  | doTest (keyword : Span) (body : Block)
  | forLower (keyword : Span) (mutable : Bool) (var : Name)
  | forUpper (keyword : Span) (mutable : Bool) (var : Name) (lower : Expr)

/-- The statement that an expression completes, if the clause is its last part. -/
def Clause.complete? (e : Expr) : Clause → Option Stmt
  | .statement => some (.expr e)
  | .varInit keyword mutable name ty =>
      some (.var (keyword.through e.span) name mutable ty e)
  | .doTest keyword body => some (.doWhile (keyword.through e.span) body e)
  | .ifTest _ | .whileTest _ | .forLower .. | .forUpper .. => none

/-- A place where an operand is due, with all that is open around it. -/
inductive Gap where
  | clause (list : Listing) (clause : Clause)
  | paren (outer : Gap) (opening : Span)
  /-- An argument of a call; the earlier ones are newest first. -/
  | call (outer : Gap) (callee : Name) (args : List Expr)
  | assign (outer : Gap) (target : Name)
  | compound (outer : Gap) (target : Name) (op : BinaryOp) (opSpan : Span)
  | unary (outer : Gap) (op : UnaryOp) (opSpan : Span)
  | binary (outer : Gap) (left : Expr) (op : BinaryOp) (opSpan : Span)

namespace Gap

/-- Whether a whole expression is due, so that an assignment can start here; after an operator
only an operand is. -/
def takesExpression : Gap → Bool
  | .unary .. | .binary .. => false
  | _ => true

/-- Whether the gap is the operand of an increment, which no prefix operator can start. -/
def isStep : Gap → Bool
  | .unary _ op _ => op.isStep
  | _ => false

/-- `target op= value`, as the assignment of a binary expression with the same range. -/
def compoundExpr (target : Name) (op : BinaryOp) (opSpan : Span) (value : Expr) : Expr :=
  let span := target.span.through value.span
  .assign span target (.binary span (.name target) op opSpan value)

/-- Let every operator around the gap that binds at least as tightly as a tier take its operand. -/
def absorb (tier : Nat) : Gap → Expr → Gap × Expr
  | .unary outer op opSpan, e =>
      absorb tier outer (.unary (opSpan.through e.span) op opSpan e)
  | .binary outer left op opSpan, e =>
      if tier ≤ op.tier then
        absorb tier outer (.binary (left.span.through e.span) left op opSpan e)
      else (.binary outer left op opSpan, e)
  | gap, e => (gap, e)

/-- Let every operator and assignment around the gap take its operand. -/
def close : Gap → Expr → Gap × Expr
  | .unary outer op opSpan, e => close outer (.unary (opSpan.through e.span) op opSpan e)
  | .binary outer left op opSpan, e =>
      close outer (.binary (left.span.through e.span) left op opSpan e)
  | .assign outer target, e => close outer (.assign (target.span.through e.span) target e)
  | .compound outer target op opSpan, e => close outer (compoundExpr target op opSpan e)
  | gap, e => (gap, e)

end Gap

/-- A gap, with the start of what was read after it, if anything was. -/
structure Fallback where
  gap : Gap
  start : Option Nat

/-- The gaps of the statement that a block belongs to, and of the lists around it, innermost first. -/
def Listing.fallbacks : Listing → List Fallback
  | .program _ => []
  | .block outer owner opening _ =>
      let clause (c : Clause) (start : Nat) : Fallback := ⟨.clause outer c, some start⟩
      let own :=
        match owner with
        | .plain => [clause .statement opening.start]
        | .thenPart keyword test =>
            [clause (.ifTest keyword) test.span.start, clause .statement keyword.start]
        | .elsePart keyword test _ =>
            [clause (.ifTest keyword) test.span.start, clause .statement keyword.start]
        | .whileBody keyword (some test) =>
            [clause (.whileTest keyword) test.span.start, clause .statement keyword.start]
        | .whileBody keyword none =>
            [clause (.whileTest keyword) opening.start, clause .statement keyword.start]
        | .doBody keyword => [clause .statement keyword.start]
        | .forBody keyword mutable var lower upper =>
            [clause (.forUpper keyword mutable var lower) upper.span.start,
             clause (.forLower keyword mutable var) lower.span.start,
             clause .statement keyword.start]
      own ++ outer.fallbacks

/-- The gap where a statement starts, after which a keyword was read, and the gaps around it. -/
def Listing.fallbacksFrom (list : Listing) (keyword : Span) : List Fallback :=
  ⟨.clause list .statement, some keyword.start⟩ :: list.fallbacks

/-- The gaps around a clause, innermost first. -/
def Clause.fallbacks (list : Listing) : Clause → List Fallback
  | .statement => list.fallbacks
  | .varInit keyword .. => list.fallbacksFrom keyword
  | .ifTest keyword => list.fallbacksFrom keyword
  | .whileTest keyword => list.fallbacksFrom keyword
  | .doTest keyword _ => list.fallbacksFrom keyword
  | .forLower keyword .. => list.fallbacksFrom keyword
  | .forUpper keyword mutable var lower =>
      ⟨.clause list (.forLower keyword mutable var), some lower.span.start⟩ ::
        list.fallbacksFrom keyword

/-- The gaps around a gap, innermost first.  After the first argument of a call its first gap is
one of them. -/
def Gap.fallbacks : Gap → List Fallback
  | .clause list c => c.fallbacks list
  | .paren outer opening => ⟨outer, some opening.start⟩ :: outer.fallbacks
  | .call outer callee args =>
      let own : List Fallback := [⟨outer, some callee.span.start⟩]
      let own :=
        match args.getLast? with
        | none => own
        | some first => ⟨.call outer callee [], some first.span.start⟩ :: own
      own ++ outer.fallbacks
  | .assign outer target => ⟨outer, some target.span.start⟩ :: outer.fallbacks
  | .compound outer target _ _ => ⟨outer, some target.span.start⟩ :: outer.fallbacks
  | .unary outer _ opSpan => ⟨outer, some opSpan.start⟩ :: outer.fallbacks
  | .binary outer left _ _ => ⟨outer, some left.span.start⟩ :: outer.fallbacks

end ScriptLang.Syntax
