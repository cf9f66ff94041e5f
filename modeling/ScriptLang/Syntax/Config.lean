/-
# ScriptLang.Syntax.Config -- reading one token after the other

A configuration is what has been read so far, arranged by what may follow.  A
token is taken in two moves: `settle` completes all that the next token shows to
be complete, and `shift` takes the token.  The grammar is in these two functions
alone; a token is expected in a configuration exactly if it can be taken there.
-/
import ScriptLang.Syntax.Gap
import ScriptLang.Syntax.Terminal

namespace ScriptLang.Syntax

set_option autoImplicit false

/-- What has been read so far. -/
inductive Config where
  /-- An operand is due, or a statement if the gap is one. -/
  | due (gap : Gap)
  /-- An operand has been read for the gap.  If it ends in a bracket, the gap `inside` the brackets
  can still be fallen back to. -/
  | operand (gap : Gap) (e : Expr) (inside : Option Fallback)
  /-- A whole expression has been read; the gap is a bracket or a clause. -/
  | whole (gap : Gap) (e : Expr)
  /-- The statement list is complete. -/
  | listed (list : Listing)
  /-- After `var`. -/
  | varStart (list : Listing) (keyword : Span)
  /-- After `var mut`. -/
  | varMut (list : Listing) (keyword : Span)
  | varNamed (list : Listing) (keyword : Span) (mutable : Bool) (name : Name)
  /-- After the colon before a type. -/
  | varColon (list : Listing) (keyword : Span) (mutable : Bool) (name : Name)
  | varTyped (list : Listing) (keyword : Span) (mutable : Bool) (name ty : Name)
  /-- After `for`. -/
  | forStart (list : Listing) (keyword : Span)
  /-- After `for mut`. -/
  | forMut (list : Listing) (keyword : Span)
  | forNamed (list : Listing) (keyword : Span) (mutable : Bool) (var : Name)
  /-- After `do`. -/
  | doStart (list : Listing) (keyword : Span)
  /-- After the body of a `do`. -/
  | doDone (list : Listing) (keyword : Span) (body : Block)
  /-- After the first block of an `if`, where `else` may follow. -/
  | thenDone (list : Listing) (keyword : Span) (test : Expr) (yes : Block)
  /-- After `else`. -/
  | elseStart (list : Listing) (keyword : Span) (test : Expr) (yes : Block)

namespace Config

/-- The start of a program. -/
def start : Config := .due (.clause (.program []) .statement)

/-- Whether the next token shows that an expression is complete; `none` is the end of the text. -/
def closes : Option Terminal → Bool
  | none => true
  | some (.keyword k) => k = .toKw
  | some (.mark m) => (m matches .rparen | .lbrace | .rbrace | .comma | .semi)
  | _ => false

/-- Whether the next token shows that a statement list is complete. -/
def endsList (next : Option Terminal) : Bool :=
  next = none || next = some (.mark .rbrace)

/-- Whether a statement list ends before the next token.  One that has no statement yet ends only
as it should: a program with the text, a block with a brace. -/
def listEnds (list : Listing) (next : Option Terminal) : Bool :=
  match list with
  | .program [] => next = none
  | .block _ _ _ [] => next = some (.mark .rbrace)
  | _ => endsList next

/-- The place after the statements of a list. -/
def afterStatement (list : Listing) (next : Option Terminal) : Config :=
  if listEnds list next then .listed list else .due (.clause list .statement)

/-- A whole expression before the next token; it may complete a statement and with it the list. -/
def afterExpression (gap : Gap) (e : Expr) (next : Option Terminal) : Config :=
  match gap with
  | .clause list clause =>
      match clause.complete? e with
      | some s => if endsList next then .listed (list.push s) else .whole gap e
      | none => .whole gap e
  | _ => .whole gap e

/-- The statement `if test yes` without an `else`. -/
def ifStmt (keyword : Span) (test : Expr) (yes : Block) : Stmt :=
  .ifThen (keyword.through yes.span) test yes

/-- Complete all that the next token shows to be complete. -/
def settle (next : Option Terminal) : Config → Config
  | .operand gap e inside =>
      match next.bind Terminal.binaryOp? with
      | some op =>
          let filled := gap.absorb op.tier e
          .operand filled.1 filled.2 none
      | none =>
          if closes next then
            let filled := gap.close e
            afterExpression filled.1 filled.2 next
          else .operand gap e inside
  | .whole gap e => afterExpression gap e next
  | .due (.clause list .statement) => afterStatement list next
  | .thenDone list keyword test yes =>
      if endsList next || next.any Terminal.startsStatement then
        afterStatement (list.push (ifStmt keyword test yes)) next
      else .thenDone list keyword test yes
  | c => c

/-- Open a block. -/
def openBlock (list : Listing) (owner : Owner) (brace : Span) : Config :=
  .due (.clause (.block list owner brace []) .statement)

/-- Go on after a statement that ends in a block. -/
def next (list : Listing) (s : Stmt) : Config := .due (.clause (list.push s) .statement)

/-- Close a block, at the end of which its owner may be complete. -/
def closeBlock (list : Listing) (owner : Owner) (block : Block) : Config :=
  match owner with
  | .plain => next list (.block block)
  | .thenPart keyword test => .thenDone list keyword test block
  | .elsePart keyword test yes =>
      next list (.ifElse (keyword.through block.span) test yes block)
  | .whileBody keyword test => next list (.whileLoop (keyword.through block.span) test block)
  | .doBody keyword => .doDone list keyword block
  | .forBody keyword mutable var lower upper =>
      next list (.forTo (keyword.through block.span) var mutable lower upper block)

/-- Take a keyword where a statement is due. -/
def statementKeyword? (list : Listing) (span : Span) : Keyword → Option Config
  | .varKw => some (.varStart list span)
  | .ifKw => some (.due (.clause list (.ifTest span)))
  | .whileKw => some (.due (.clause list (.whileTest span)))
  | .doKw => some (.doStart list span)
  | .forKw => some (.forStart list span)
  | _ => none

/-- Take a mark where an operand is due. -/
def dueMark? (gap : Gap) (span : Span) (m : Mark) : Option Config :=
  match UnaryOp.ofMark? m with
  | some op => if gap.isStep && !op.isStep then none else some (.due (.unary gap op span))
  | none =>
      match m, gap with
      | .lparen, _ => some (.due (.paren gap span))
      | .lbrace, .clause list .statement => some (openBlock list .plain span)
      | .lbrace, .clause list (.whileTest keyword) =>
          some (openBlock list (.whileBody keyword none) span)
      | .rparen, .call outer callee [] =>
          some (.operand outer (.call (callee.span.through span) callee [])
            (some ⟨.call outer callee [], some span.start⟩))
      | _, _ => none

/-- Take a token where an operand is due. -/
def due? (gap : Gap) (span : Span) : Token → Option Config
  | .int n => some (.operand gap (.literal span (.int n)) none)
  | .float x => some (.operand gap (.literal span (.float x)) none)
  | .string s => some (.operand gap (.literal span (.str s)) none)
  | .ident name => some (.operand gap (.name (.read name span)) none)
  | .keyword .trueKw => some (.operand gap (.literal span (.bool true)) none)
  | .keyword .falseKw => some (.operand gap (.literal span (.bool false)) none)
  | .keyword k =>
      match gap with
      | .clause list .statement => statementKeyword? list span k
      | _ => none
  | .mark m => dueMark? gap span m

/-- The name that an operand is, if it was read and not put in for a missing one. -/
def name? : Expr → Option Name
  | .name n => if n.isMissing then none else some n
  | _ => none

/-- Take a mark after an operand: a binary operator, or what may follow a name. -/
def operandMark? (gap : Gap) (e : Expr) (span : Span) (m : Mark) : Option Config :=
  match BinaryOp.ofMark? m with
  | some op => some (.due (.binary gap e op span))
  | none =>
      match name? e with
      | none => none
      | some n =>
          if m = .lparen then some (.due (.call gap n []))
          else if gap.takesExpression then
            if m = .eq then some (.due (.assign gap n))
            else (BinaryOp.ofCompound? m).map fun op => .due (.compound gap n op span)
          else none

/-- Take a mark or `to` after the expression of a clause. -/
def clauseToken? (list : Listing) (clause : Clause) (e : Expr) (span : Span) (t : Token) :
    Option Config :=
  match clause, t with
  | .ifTest keyword, .mark .lbrace => some (openBlock list (.thenPart keyword e) span)
  | .whileTest keyword, .mark .lbrace => some (openBlock list (.whileBody keyword (some e)) span)
  | .forLower keyword mutable var, .keyword .toKw =>
      some (.due (.clause list (.forUpper keyword mutable var e)))
  | .forUpper keyword mutable var lower, .mark .lbrace =>
      some (openBlock list (.forBody keyword mutable var lower e) span)
  | c, .mark .semi => (c.complete? e).map (next list)
  | _, _ => none

/-- Take a token after a whole expression. -/
def whole? (gap : Gap) (e : Expr) (span : Span) (t : Token) : Option Config :=
  match gap, t with
  | .clause list clause, t => clauseToken? list clause e span t
  | .paren outer opening, .mark .rparen =>
      some (.operand outer (.paren (opening.through span) e)
        (some ⟨.paren outer opening, some e.span.start⟩))
  | .call outer callee args, .mark .rparen =>
      some (.operand outer (.call (callee.span.through span) callee (e :: args).reverse)
        (some ⟨.call outer callee [], some (args.getLastD e).span.start⟩))
  | .call outer callee args, .mark .comma => some (.due (.call outer callee (e :: args)))
  | _, _ => none

/-- Take a token, if it can stand here. -/
def shift? (span : Span) : Config → Token → Option Config
  | .due gap, t => due? gap span t
  | .operand gap e _, .mark m => operandMark? gap e span m
  | .whole gap e, t => whole? gap e span t
  | .listed (.block outer owner opening done), .mark .rbrace =>
      some (closeBlock outer owner (.mk (opening.through span) done.reverse))
  | .varStart list keyword, .keyword .mutKw => some (.varMut list keyword)
  | .varStart list keyword, .ident name =>
      some (.varNamed list keyword false (.read name span))
  | .varMut list keyword, .ident name => some (.varNamed list keyword true (.read name span))
  | .varNamed list keyword mutable name, .mark .eq =>
      some (.due (.clause list (.varInit keyword mutable name none)))
  | .varNamed list keyword mutable name, .mark .colon => some (.varColon list keyword mutable name)
  | .varColon list keyword mutable name, .ident ty =>
      some (.varTyped list keyword mutable name (.read ty span))
  | .varTyped list keyword mutable name ty, .mark .eq =>
      some (.due (.clause list (.varInit keyword mutable name (some ty))))
  | .forStart list keyword, .keyword .mutKw => some (.forMut list keyword)
  | .forStart list keyword, .ident name =>
      some (.forNamed list keyword false (.read name span))
  | .forMut list keyword, .ident name => some (.forNamed list keyword true (.read name span))
  | .forNamed list keyword mutable var, .mark .eq =>
      some (.due (.clause list (.forLower keyword mutable var)))
  | .doStart list keyword, .mark .lbrace => some (openBlock list (.doBody keyword) span)
  | .doDone list keyword body, .keyword .whileKw =>
      some (.due (.clause list (.doTest keyword body)))
  | .thenDone list keyword test yes, .keyword .elseKw => some (.elseStart list keyword test yes)
  | .elseStart list keyword test yes, .mark .lbrace =>
      some (openBlock list (.elsePart keyword test yes) span)
  | _, _ => none

/-- Complete what is complete and take a token. -/
def step? (c : Config) (t : Located) : Option Config :=
  (c.settle (some (.of t.token))).shift? t.span t.token

/-- Whether a token of a kind can be taken. -/
def admits (c : Config) (t : Terminal) : Bool := (c.step? ⟨t.sample, default⟩).isSome

/-- The kinds of tokens that can be taken. -/
def expected (c : Config) : List Terminal := Terminal.all.filter c.admits

/-- The statements of a program, if the text may end here. -/
def finish? (c : Config) : Option (List Stmt) :=
  match c.settle none with
  | .listed (.program done) => some done.reverse
  | _ => none

/-- The gaps that reading could fall back to, innermost first.  After the first block of an `if`
the statement counts as complete. -/
def fallbacks : Config → List Fallback
  | .due gap => ⟨gap, none⟩ :: gap.fallbacks
  | .operand gap e inside => inside.toList ++ ⟨gap, some e.span.start⟩ :: gap.fallbacks
  | .whole gap e => ⟨gap, some e.span.start⟩ :: gap.fallbacks
  | .listed list => list.fallbacks
  | .varStart list keyword => list.fallbacksFrom keyword
  | .varMut list keyword => list.fallbacksFrom keyword
  | .varNamed list keyword .. => list.fallbacksFrom keyword
  | .varColon list keyword .. => list.fallbacksFrom keyword
  | .varTyped list keyword .. => list.fallbacksFrom keyword
  | .forStart list keyword => list.fallbacksFrom keyword
  | .forMut list keyword => list.fallbacksFrom keyword
  | .forNamed list keyword .. => list.fallbacksFrom keyword
  | .doStart list keyword => list.fallbacksFrom keyword
  | .doDone list keyword _ => list.fallbacksFrom keyword
  | .thenDone list keyword test yes =>
      ⟨.clause (list.push (ifStmt keyword test yes)) .statement, none⟩ :: list.fallbacks
  | .elseStart list keyword test _ =>
      ⟨.clause list (.ifTest keyword), some test.span.start⟩ :: list.fallbacksFrom keyword

/-- Whether a statement is due in a list that has none yet. -/
def isFresh : Config → Bool
  | .due (.clause list .statement) => list.isFresh
  | _ => false

end Config

end ScriptLang.Syntax
