/-
# ScriptLang.Proofs.Shifting -- what taking a token can do

`shift?` says what may follow what has been read by matches inside matches, most
of which end in `none`.  Here the same is said by relations with one case for each
thing that can happen, guards included: where an operand is due (`DueShifts`),
after an operand (`OperandShifts`), after a whole expression (`WholeShifts`) and
anywhere (`Shifts`).  Nothing else can happen (`shifts_of_shift?`).

What every step keeps is shown by cases on these relations, and on what may be
completed before a token (`afterExpression_cases`), so that the functions are
opened here only.
-/
import ScriptLang.Proofs.Grammar
import ScriptLang.Syntax.Config

namespace ScriptLang.Syntax

set_option autoImplicit false

namespace Config

/-! ## Completing -/

/-- A statement list is complete, or its next statement is due. -/
theorem afterStatement_cases (list : Listing) (next : Option Terminal) :
    (listEnds list next = true ∧ afterStatement list next = .listed list) ∨
      afterStatement list next = .due (.clause list .statement) := by
  unfold afterStatement
  split
  · rename_i ends
    exact .inl ⟨ends, rfl⟩
  · exact .inr rfl

/-- A whole expression completes a statement and with it the list, or nothing yet. -/
theorem afterExpression_cases (gap : Gap) (e : Expr) (next : Option Terminal) :
    (∃ list part s, gap = .clause list part ∧ part.complete? e = some s ∧ endsList next = true ∧
      afterExpression gap e next = .listed (list.push s)) ∨
      afterExpression gap e next = .whole gap e := by
  fun_cases afterExpression gap e next with
  | case1 list part s done ends => exact .inl ⟨list, part, s, rfl, done, ends, rfl⟩
  | case2 => exact .inr rfl
  | case3 => exact .inr rfl
  | case4 => exact .inr rfl

/-- Where a text may end its statements are a program that is complete. -/
theorem settle_of_finish? {c : Config} {statements : List Stmt} (done : c.finish? = some statements) :
    c.settle none = .listed (.program statements.reverse) := by
  unfold finish? at done
  split at done
  · rename_i found
    cases done
    rw [found, List.reverse_reverse]
  · cases done

/-! ## Taking a token -/

/-- What a token can do where an operand is due, or a statement. -/
inductive DueShifts (span : Span) : Gap → Token → Config → Prop
  | literal (gap : Gap) (value : Literal) :
      DueShifts span gap value.token (.operand gap (.literal span value) none)
  | name (gap : Gap) (text : String) :
      DueShifts span gap (.ident text) (.operand gap (.name (.read text span)) none)
  | varStart (list : Listing) :
      DueShifts span (.clause list .statement) (.keyword .varKw) (.varStart list span)
  | ifTest (list : Listing) :
      DueShifts span (.clause list .statement) (.keyword .ifKw) (.due (.clause list (.ifTest span)))
  | whileTest (list : Listing) :
      DueShifts span (.clause list .statement) (.keyword .whileKw)
        (.due (.clause list (.whileTest span)))
  | doStart (list : Listing) :
      DueShifts span (.clause list .statement) (.keyword .doKw) (.doStart list span)
  | forStart (list : Listing) :
      DueShifts span (.clause list .statement) (.keyword .forKw) (.forStart list span)
  | unary (gap : Gap) {m : Mark} {op : UnaryOp} :
      UnaryOp.ofMark? m = some op → (gap.isStep = true → op.isStep = true) →
      DueShifts span gap (.mark m) (.due (.unary gap op span))
  | paren (gap : Gap) : DueShifts span gap (.mark .lparen) (.due (.paren gap span))
  | block (list : Listing) :
      DueShifts span (.clause list .statement) (.mark .lbrace) (openBlock list .plain span)
  /-- A `while` without a test. -/
  | whileTrue (list : Listing) (keyword : Span) :
      DueShifts span (.clause list (.whileTest keyword)) (.mark .lbrace)
        (openBlock list (.whileBody keyword none) span)
  /-- A call without arguments. -/
  | callBare (outer : Gap) (callee : Name) :
      DueShifts span (.call outer callee []) (.mark .rparen)
        (.operand outer (.call (callee.span.through span) callee [])
          (some ⟨.call outer callee [], some span.start⟩))

/-- What a mark can do after an operand. -/
inductive OperandShifts (span : Span) (gap : Gap) : Expr → Mark → Config → Prop
  | binary (e : Expr) {m : Mark} {op : BinaryOp} :
      BinaryOp.ofMark? m = some op → OperandShifts span gap e m (.due (.binary gap e op span))
  | call {n : Name} :
      n.isMissing = false → OperandShifts span gap (.name n) .lparen (.due (.call gap n []))
  | assign {n : Name} :
      n.isMissing = false → gap.takesExpression = true →
      OperandShifts span gap (.name n) .eq (.due (.assign gap n))
  | compound {n : Name} {m : Mark} {op : BinaryOp} :
      n.isMissing = false → gap.takesExpression = true → BinaryOp.ofCompound? m = some op →
      OperandShifts span gap (.name n) m (.due (.compound gap n op span))

/-- What a token can do after a whole expression. -/
inductive WholeShifts (span : Span) (e : Expr) : Gap → Token → Config → Prop
  | thenPart (list : Listing) (keyword : Span) :
      WholeShifts span e (.clause list (.ifTest keyword)) (.mark .lbrace)
        (openBlock list (.thenPart keyword e) span)
  | whileBody (list : Listing) (keyword : Span) :
      WholeShifts span e (.clause list (.whileTest keyword)) (.mark .lbrace)
        (openBlock list (.whileBody keyword (some e)) span)
  | forUpper (list : Listing) (keyword : Span) (mutable : Bool) (var : Name) :
      WholeShifts span e (.clause list (.forLower keyword mutable var)) (.keyword .toKw)
        (.due (.clause list (.forUpper keyword mutable var e)))
  | forBody (list : Listing) (keyword : Span) (mutable : Bool) (var : Name) (lower : Expr) :
      WholeShifts span e (.clause list (.forUpper keyword mutable var lower)) (.mark .lbrace)
        (openBlock list (.forBody keyword mutable var lower e) span)
  | statement (list : Listing) {part : Clause} {s : Stmt} :
      part.complete? e = some s →
      WholeShifts span e (.clause list part) (.mark .semi) (next list s)
  | paren (outer : Gap) (opening : Span) :
      WholeShifts span e (.paren outer opening) (.mark .rparen)
        (.operand outer (.paren (opening.through span) e)
          (some ⟨.paren outer opening, some e.span.start⟩))
  | call (outer : Gap) (callee : Name) (args : List Expr) :
      WholeShifts span e (.call outer callee args) (.mark .rparen)
        (.operand outer (.call (callee.span.through span) callee (e :: args).reverse)
          (some ⟨.call outer callee [], some (args.getLastD e).span.start⟩))
  | argument (outer : Gap) (callee : Name) (args : List Expr) :
      WholeShifts span e (.call outer callee args) (.mark .comma)
        (.due (.call outer callee (e :: args)))

/-- What taking a token can do. -/
inductive Shifts (span : Span) : Config → Token → Config → Prop
  | due {gap : Gap} {t : Token} {c : Config} :
      DueShifts span gap t c → Shifts span (.due gap) t c
  | operand {gap : Gap} {e : Expr} (inside : Option Fallback) {m : Mark} {c : Config} :
      OperandShifts span gap e m c → Shifts span (.operand gap e inside) (.mark m) c
  | whole {gap : Gap} {e : Expr} {t : Token} {c : Config} :
      WholeShifts span e gap t c → Shifts span (.whole gap e) t c
  | closeBlock (outer : Listing) (owner : Owner) (opening : Span) (done : List Stmt) :
      Shifts span (.listed (.block outer owner opening done)) (.mark .rbrace)
        (closeBlock outer owner (.mk (opening.through span) done.reverse))
  | varMut (list : Listing) (keyword : Span) :
      Shifts span (.varStart list keyword) (.keyword .mutKw) (.varMut list keyword)
  | varName (list : Listing) (keyword : Span) (text : String) :
      Shifts span (.varStart list keyword) (.ident text)
        (.varNamed list keyword false (.read text span))
  | varMutName (list : Listing) (keyword : Span) (text : String) :
      Shifts span (.varMut list keyword) (.ident text)
        (.varNamed list keyword true (.read text span))
  | varEq (list : Listing) (keyword : Span) (mutable : Bool) (name : Name) :
      Shifts span (.varNamed list keyword mutable name) (.mark .eq)
        (.due (.clause list (.varInit keyword mutable name none)))
  | varColon (list : Listing) (keyword : Span) (mutable : Bool) (name : Name) :
      Shifts span (.varNamed list keyword mutable name) (.mark .colon)
        (.varColon list keyword mutable name)
  | varType (list : Listing) (keyword : Span) (mutable : Bool) (name : Name) (ty : String) :
      Shifts span (.varColon list keyword mutable name) (.ident ty)
        (.varTyped list keyword mutable name (.read ty span))
  | varTypedEq (list : Listing) (keyword : Span) (mutable : Bool) (name ty : Name) :
      Shifts span (.varTyped list keyword mutable name ty) (.mark .eq)
        (.due (.clause list (.varInit keyword mutable name (some ty))))
  | forMut (list : Listing) (keyword : Span) :
      Shifts span (.forStart list keyword) (.keyword .mutKw) (.forMut list keyword)
  | forName (list : Listing) (keyword : Span) (text : String) :
      Shifts span (.forStart list keyword) (.ident text)
        (.forNamed list keyword false (.read text span))
  | forMutName (list : Listing) (keyword : Span) (text : String) :
      Shifts span (.forMut list keyword) (.ident text)
        (.forNamed list keyword true (.read text span))
  | forEq (list : Listing) (keyword : Span) (mutable : Bool) (var : Name) :
      Shifts span (.forNamed list keyword mutable var) (.mark .eq)
        (.due (.clause list (.forLower keyword mutable var)))
  | doBody (list : Listing) (keyword : Span) :
      Shifts span (.doStart list keyword) (.mark .lbrace) (openBlock list (.doBody keyword) span)
  | doWhile (list : Listing) (keyword : Span) (body : Block) :
      Shifts span (.doDone list keyword body) (.keyword .whileKw)
        (.due (.clause list (.doTest keyword body)))
  | elseStart (list : Listing) (keyword : Span) (test : Expr) (yes : Block) :
      Shifts span (.thenDone list keyword test yes) (.keyword .elseKw)
        (.elseStart list keyword test yes)
  | elseBody (list : Listing) (keyword : Span) (test : Expr) (yes : Block) :
      Shifts span (.elseStart list keyword test yes) (.mark .lbrace)
        (openBlock list (.elsePart keyword test yes) span)

variable {span : Span}

theorem shifts_of_statementKeyword? {list : Listing} {k : Keyword} {c : Config}
    (taken : statementKeyword? list span k = some c) :
    DueShifts span (.clause list .statement) (.keyword k) c := by
  cases k <;> cases taken
  case varKw => exact .varStart list
  case ifKw => exact .ifTest list
  case whileKw => exact .whileTest list
  case doKw => exact .doStart list
  case forKw => exact .forStart list

theorem shifts_of_dueMark? {gap : Gap} {m : Mark} {c : Config} :
    dueMark? gap span m = some c → DueShifts span gap (.mark m) c := by
  fun_cases dueMark? gap span m with
  | case1 => exact nofun
  | case2 _ _ op found allowed =>
      rintro ⟨⟩
      refine .unary gap found fun gapStep => ?_
      simpa [gapStep] using allowed
  | case3 => rintro ⟨⟩; exact .paren gap
  | case4 list => rintro ⟨⟩; exact .block list
  | case5 list keyword => rintro ⟨⟩; exact .whileTrue list keyword
  | case6 outer callee => rintro ⟨⟩; exact .callBare outer callee
  | case7 => exact nofun

theorem shifts_of_due? {gap : Gap} {t : Token} {c : Config} :
    due? gap span t = some c → DueShifts span gap t c := by
  fun_cases due? gap span t with
  | case1 _ n => rintro ⟨⟩; exact .literal gap (.int n)
  | case2 _ x => rintro ⟨⟩; exact .literal gap (.float x)
  | case3 _ text => rintro ⟨⟩; exact .literal gap (.str text)
  | case4 _ text => rintro ⟨⟩; exact .name gap text
  | case5 => rintro ⟨⟩; exact .literal gap (.bool true)
  | case6 => rintro ⟨⟩; exact .literal gap (.bool false)
  | case7 => exact shifts_of_statementKeyword?
  | case8 => exact nofun
  | case9 => exact shifts_of_dueMark?

theorem eq_name_of_name? {e : Expr} {n : Name} :
    name? e = some n → e = .name n ∧ n.isMissing = false := by
  fun_cases name? e with
  | case1 => exact nofun
  | case2 n read => rintro ⟨⟩; exact ⟨rfl, by simpa using read⟩
  | case3 => exact nofun

theorem shifts_of_operandMark? {gap : Gap} {e : Expr} {m : Mark} {c : Config} :
    operandMark? gap e span m = some c → OperandShifts span gap e m c := by
  fun_cases operandMark? gap e span m with
  | case1 op found => rintro ⟨⟩; exact .binary e found
  | case2 => exact nofun
  | case3 noOperator n named paren =>
      rintro ⟨⟩
      obtain ⟨rfl, read⟩ := eq_name_of_name? named
      exact paren ▸ .call read
  | case4 noOperator n named notParen takes eq =>
      rintro ⟨⟩
      obtain ⟨rfl, read⟩ := eq_name_of_name? named
      exact eq ▸ .assign read takes
  | case5 noOperator n named notParen takes notEq =>
      intro taken
      obtain ⟨rfl, read⟩ := eq_name_of_name? named
      obtain ⟨op, found, rfl⟩ := Option.map_eq_some_iff.1 taken
      exact .compound read takes found
  | case6 => exact nofun

theorem shifts_of_clauseToken? {list : Listing} {part : Clause} {e : Expr} {t : Token} {c : Config} :
    clauseToken? list part e span t = some c → WholeShifts span e (.clause list part) t c := by
  fun_cases clauseToken? list part e span t with
  | case1 keyword => rintro ⟨⟩; exact .thenPart list keyword
  | case2 keyword => rintro ⟨⟩; exact .whileBody list keyword
  | case3 keyword mutable var => rintro ⟨⟩; exact .forUpper list keyword mutable var
  | case4 keyword mutable var lower => rintro ⟨⟩; exact .forBody list keyword mutable var lower
  | case5 =>
      intro taken
      obtain ⟨s, done, rfl⟩ := Option.map_eq_some_iff.1 taken
      exact .statement list done
  | case6 => exact nofun

theorem shifts_of_whole? {gap : Gap} {e : Expr} {t : Token} {c : Config} :
    whole? gap e span t = some c → WholeShifts span e gap t c := by
  fun_cases whole? gap e span t with
  | case1 => exact shifts_of_clauseToken?
  | case2 outer opening => rintro ⟨⟩; exact .paren outer opening
  | case3 outer callee args => rintro ⟨⟩; exact .call outer callee args
  | case4 outer callee args => rintro ⟨⟩; exact .argument outer callee args
  | case5 => exact nofun

theorem shifts_of_shift? {c c' : Config} {t : Token} :
    shift? span c t = some c' → Shifts span c t c' := by
  fun_cases shift? span c t with
  | case1 gap => exact fun taken => .due (shifts_of_due? taken)
  | case2 gap e inside m => exact fun taken => .operand inside (shifts_of_operandMark? taken)
  | case3 gap e => exact fun taken => .whole (shifts_of_whole? taken)
  | case4 outer owner opening done => rintro ⟨⟩; exact .closeBlock outer owner opening done
  | case5 list keyword => rintro ⟨⟩; exact .varMut list keyword
  | case6 list keyword text => rintro ⟨⟩; exact .varName list keyword text
  | case7 list keyword text => rintro ⟨⟩; exact .varMutName list keyword text
  | case8 list keyword mutable name => rintro ⟨⟩; exact .varEq list keyword mutable name
  | case9 list keyword mutable name => rintro ⟨⟩; exact .varColon list keyword mutable name
  | case10 list keyword mutable name ty => rintro ⟨⟩; exact .varType list keyword mutable name ty
  | case11 list keyword mutable name ty =>
      rintro ⟨⟩
      exact .varTypedEq list keyword mutable name ty
  | case12 list keyword => rintro ⟨⟩; exact .forMut list keyword
  | case13 list keyword text => rintro ⟨⟩; exact .forName list keyword text
  | case14 list keyword text => rintro ⟨⟩; exact .forMutName list keyword text
  | case15 list keyword mutable var => rintro ⟨⟩; exact .forEq list keyword mutable var
  | case16 list keyword => rintro ⟨⟩; exact .doBody list keyword
  | case17 list keyword body => rintro ⟨⟩; exact .doWhile list keyword body
  | case18 list keyword test yes => rintro ⟨⟩; exact .elseStart list keyword test yes
  | case19 list keyword test yes => rintro ⟨⟩; exact .elseBody list keyword test yes
  | case20 => exact nofun

end Config

end ScriptLang.Syntax
