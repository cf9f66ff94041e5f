/-
# ScriptLang.Proofs.Named -- where the names of a tree come from

A name in a tree was read from a token, or it stands for one that was missing.  Nothing
else makes names, so a property that both kinds have belongs to every name in the tree
(`Reader.named_read`).  It is carried along with what has been read (`Config.Named`) and
with the gaps that could be fallen back to, and taking a token keeps it
(`Config.step?_named`).

Where reading meets no error no name is missing, and the property need only hold of the
names that are read (`Config.run?_named`).
-/
import ScriptLang.Proofs.Reading
import ScriptLang.Proofs.Shifting

namespace ScriptLang.Syntax

set_option autoImplicit false

/-! ## Induction -/

@[elab_as_elim]
theorem Expr.induction {motive : Expr → Prop}
    (literal : ∀ span value, motive (.literal span value))
    (name : ∀ n, motive (.name n))
    (unary : ∀ span op opSpan operand, motive operand → motive (.unary span op opSpan operand))
    (binary : ∀ span left op opSpan right, motive left → motive right →
      motive (.binary span left op opSpan right))
    (assign : ∀ span target value, motive value → motive (.assign span target value))
    (call : ∀ span callee args, (∀ e ∈ args, motive e) → motive (.call span callee args))
    (paren : ∀ span inner, motive inner → motive (.paren span inner)) (e : Expr) : motive e :=
  @Expr.rec motive (fun args => ∀ e ∈ args, motive e) literal name unary binary assign call paren
    (fun _ member => nomatch member) (fun _ _ first rest => List.forall_mem_cons.2 ⟨first, rest⟩) e

@[elab_as_elim]
theorem Stmt.induction {motive : Stmt → Prop}
    (block : ∀ body : Block, (∀ s ∈ body.statements, motive s) → motive (.block body))
    (var : ∀ span name mutable ty init, motive (.var span name mutable ty init))
    (ifThen : ∀ span test (yes : Block), (∀ s ∈ yes.statements, motive s) →
      motive (.ifThen span test yes))
    (ifElse : ∀ span test (yes no : Block), (∀ s ∈ yes.statements, motive s) →
      (∀ s ∈ no.statements, motive s) → motive (.ifElse span test yes no))
    (whileLoop : ∀ span test (body : Block), (∀ s ∈ body.statements, motive s) →
      motive (.whileLoop span test body))
    (doWhile : ∀ span (body : Block) test, (∀ s ∈ body.statements, motive s) →
      motive (.doWhile span body test))
    (forTo : ∀ span var mutable lower upper (body : Block), (∀ s ∈ body.statements, motive s) →
      motive (.forTo span var mutable lower upper body))
    (expr : ∀ e, motive (.expr e)) (s : Stmt) : motive s :=
  @Stmt.rec motive (fun body => ∀ s ∈ body.statements, motive s) (fun body => ∀ s ∈ body, motive s)
    block var ifThen ifElse whileLoop doWhile forTo expr (fun _ _ each => each)
    (fun _ member => nomatch member) (fun _ _ first rest => List.forall_mem_cons.2 ⟨first, rest⟩) s

/-! ## Trees -/

mutual

/-- Whether every name in an expression has a property. -/
def Expr.Named (P : Name → Prop) : Expr → Prop
  | .literal _ _ => True
  | .name n => P n
  | .unary _ _ _ operand => operand.Named P
  | .binary _ left _ _ right => left.Named P ∧ right.Named P
  | .assign _ target value => P target ∧ value.Named P
  | .call _ callee args => P callee ∧ Expr.NamedAll P args
  | .paren _ inner => inner.Named P

def Expr.NamedAll (P : Name → Prop) : List Expr → Prop
  | [] => True
  | e :: es => e.Named P ∧ Expr.NamedAll P es

end

mutual

/-- Whether every name in a statement has a property. -/
def Stmt.Named (P : Name → Prop) : Stmt → Prop
  | .block body => body.Named P
  | .var _ name _ ty init => P name ∧ (∀ t ∈ ty, P t) ∧ init.Named P
  | .ifThen _ test yes => test.Named P ∧ yes.Named P
  | .ifElse _ test yes no => test.Named P ∧ yes.Named P ∧ no.Named P
  | .whileLoop _ test body => (∀ e ∈ test, e.Named P) ∧ body.Named P
  | .doWhile _ body test => body.Named P ∧ test.Named P
  | .forTo _ var _ lower upper body => P var ∧ lower.Named P ∧ upper.Named P ∧ body.Named P
  | .expr e => e.Named P

def Block.Named (P : Name → Prop) : Block → Prop
  | .mk _ statements => Stmt.NamedAll P statements

def Stmt.NamedAll (P : Name → Prop) : List Stmt → Prop
  | [] => True
  | s :: ss => s.Named P ∧ Stmt.NamedAll P ss

end

variable {P : Name → Prop}

theorem Expr.namedAll_iff {args : List Expr} : Expr.NamedAll P args ↔ ∀ e ∈ args, e.Named P := by
  induction args with
  | nil => simp [Expr.NamedAll]
  | cons e es ih => simp [Expr.NamedAll, ih]

theorem Stmt.namedAll_iff {body : List Stmt} : Stmt.NamedAll P body ↔ ∀ s ∈ body, s.Named P := by
  induction body with
  | nil => simp [Stmt.NamedAll]
  | cons s ss ih => simp [Stmt.NamedAll, ih]

theorem Block.named_iff {body : Block} : body.Named P ↔ ∀ s ∈ body.statements, s.Named P := by
  cases body
  exact Stmt.namedAll_iff

/-! ## What has been read -/

def Owner.Named (P : Name → Prop) : Owner → Prop
  | .plain | .doBody _ => True
  | .thenPart _ test => test.Named P
  | .elsePart _ test yes => test.Named P ∧ yes.Named P
  | .whileBody _ test => ∀ e ∈ test, e.Named P
  | .forBody _ _ var lower upper => P var ∧ lower.Named P ∧ upper.Named P

def Listing.Named (P : Name → Prop) : Listing → Prop
  | .program done => ∀ s ∈ done, s.Named P
  | .block outer owner _ done => outer.Named P ∧ owner.Named P ∧ ∀ s ∈ done, s.Named P

def Clause.Named (P : Name → Prop) : Clause → Prop
  | .statement | .ifTest _ | .whileTest _ => True
  | .varInit _ _ name ty => P name ∧ ∀ t ∈ ty, P t
  | .doTest _ body => body.Named P
  | .forLower _ _ var => P var
  | .forUpper _ _ var lower => P var ∧ lower.Named P

def Gap.Named (P : Name → Prop) : Gap → Prop
  | .clause list part => list.Named P ∧ part.Named P
  | .paren outer _ => outer.Named P
  | .call outer callee args => outer.Named P ∧ P callee ∧ ∀ e ∈ args, e.Named P
  | .assign outer target => outer.Named P ∧ P target
  | .compound outer target _ _ => outer.Named P ∧ P target
  | .unary outer _ _ => outer.Named P
  | .binary outer left _ _ => outer.Named P ∧ left.Named P

/-- Whether every name in what has been read has a property, and in the gap inside the brackets that
an operand ends in. -/
def Config.Named (P : Name → Prop) : Config → Prop
  | .due gap => gap.Named P
  | .operand gap e inside => gap.Named P ∧ e.Named P ∧ ∀ f ∈ inside, f.gap.Named P
  | .whole gap e => gap.Named P ∧ e.Named P
  | .listed list => list.Named P
  | .varStart list _ | .varMut list _ => list.Named P
  | .varNamed list _ _ name | .varColon list _ _ name => list.Named P ∧ P name
  | .varTyped list _ _ name ty => list.Named P ∧ P name ∧ P ty
  | .forStart list _ | .forMut list _ => list.Named P
  | .forNamed list _ _ var => list.Named P ∧ P var
  | .doStart list _ => list.Named P
  | .doDone list _ body => list.Named P ∧ body.Named P
  | .thenDone list _ test yes | .elseStart list _ test yes =>
      list.Named P ∧ test.Named P ∧ yes.Named P

/-- Whether the name that a token would be read as has a property. -/
def TokenNamed (P : Name → Prop) (t : Located) : Prop :=
  ∀ text, t.token = .ident text → P (.read text t.span)

theorem Listing.Named.push {list : Listing} {s : Stmt} (named : list.Named P)
    (namedStmt : s.Named P) : (list.push s).Named P := by
  cases list with
  | program done => exact List.forall_mem_cons.2 ⟨namedStmt, named⟩
  | block outer owner opening done =>
      exact ⟨named.1, named.2.1, List.forall_mem_cons.2 ⟨namedStmt, named.2.2⟩⟩

theorem Clause.Named.complete? {clause : Clause} {e : Expr} {s : Stmt} (named : clause.Named P)
    (namedExpr : e.Named P) (done : clause.complete? e = some s) : s.Named P := by
  cases clause with
  | statement => cases done; exact namedExpr
  | varInit keyword mutable name ty => cases done; exact ⟨named.1, named.2, namedExpr⟩
  | doTest keyword body => cases done; exact ⟨named, namedExpr⟩
  | ifTest keyword => cases done
  | whileTest keyword => cases done
  | forLower keyword mutable var => cases done
  | forUpper keyword mutable var lower => cases done

theorem Gap.Named.absorb (tier : Nat) {gap : Gap} {e : Expr} (named : gap.Named P)
    (namedExpr : e.Named P) : (gap.absorb tier e).1.Named P ∧ (gap.absorb tier e).2.Named P := by
  fun_induction Gap.absorb tier gap e with
  | case1 outer op opSpan e ih => exact ih named namedExpr
  | case2 outer left op opSpan e tight ih => exact ih named.1 ⟨named.2, namedExpr⟩
  | case3 outer left op opSpan e loose => exact ⟨named, namedExpr⟩
  | case4 gap e => exact ⟨named, namedExpr⟩

theorem Gap.Named.close {gap : Gap} {e : Expr} (named : gap.Named P) (namedExpr : e.Named P) :
    (gap.close e).1.Named P ∧ (gap.close e).2.Named P := by
  fun_induction Gap.close gap e with
  | case1 outer op opSpan e ih => exact ih named namedExpr
  | case2 outer left op opSpan e ih => exact ih named.1 ⟨named.2, namedExpr⟩
  | case3 outer target e ih => exact ih named.1 ⟨named.2, namedExpr⟩
  | case4 outer target op opSpan e ih => exact ih named.1 ⟨named.2, named.2, namedExpr⟩
  | case5 gap e => exact ⟨named, namedExpr⟩

namespace Config

theorem named_afterStatement {list : Listing} (named : list.Named P) (next : Option Terminal) :
    (afterStatement list next).Named P := by
  rcases afterStatement_cases list next with ⟨-, same⟩ | same
  · rw [same]
    exact named
  · rw [same]
    exact ⟨named, trivial⟩

theorem named_afterExpression {gap : Gap} {e : Expr} (named : gap.Named P) (namedExpr : e.Named P)
    (next : Option Terminal) : (afterExpression gap e next).Named P := by
  rcases afterExpression_cases gap e next with ⟨list, part, s, rfl, done, -, same⟩ | same
  · rw [same]
    exact named.1.push (named.2.complete? namedExpr done)
  · rw [same]
    exact ⟨named, namedExpr⟩

theorem named_settle {c : Config} (named : c.Named P) (next : Option Terminal) :
    (c.settle next).Named P := by
  fun_cases settle next c with
  | case1 gap e inside op found filled =>
      obtain ⟨namedGap, namedExpr⟩ := Gap.Named.absorb op.tier named.1 named.2.1
      exact ⟨namedGap, namedExpr, nofun⟩
  | case2 gap e inside found closes filled =>
      obtain ⟨namedGap, namedExpr⟩ := Gap.Named.close named.1 named.2.1
      exact named_afterExpression namedGap namedExpr next
  | case3 gap e inside found open_ => exact named
  | case4 gap e => exact named_afterExpression named.1 named.2 next
  | case5 list => exact named_afterStatement named.1 next
  | case6 list keyword test yes ends =>
      have namedIf : (ifStmt keyword test yes).Named P := named.2
      exact named_afterStatement (named.1.push namedIf) next
  | case7 list keyword test yes goes => exact named
  | case8 => exact named

theorem named_openBlock {list : Listing} {owner : Owner} (named : list.Named P)
    (namedOwner : owner.Named P) (brace : Span) : (openBlock list owner brace).Named P :=
  ⟨⟨named, namedOwner, nofun⟩, trivial⟩

theorem named_next {list : Listing} {s : Stmt} (named : list.Named P) (namedStmt : s.Named P) :
    (next list s).Named P :=
  ⟨named.push namedStmt, trivial⟩

theorem named_closeBlock {list : Listing} {owner : Owner} {block : Block} (named : list.Named P)
    (namedOwner : owner.Named P) (namedBlock : block.Named P) :
    (closeBlock list owner block).Named P := by
  cases owner with
  | plain => exact named_next named namedBlock
  | thenPart keyword test => exact ⟨named, namedOwner, namedBlock⟩
  | elsePart keyword test yes =>
      exact named_next named ⟨namedOwner.1, namedOwner.2, namedBlock⟩
  | whileBody keyword test => exact named_next named ⟨namedOwner, namedBlock⟩
  | doBody keyword => exact ⟨named, namedBlock⟩
  | forBody keyword mutable var lower upper =>
      exact named_next named ⟨namedOwner.1, namedOwner.2.1, namedOwner.2.2, namedBlock⟩

/-- The names in what is read where an operand is due come from the token. -/
theorem named_dueShifts {gap : Gap} {span : Span} {t : Token} {c : Config} (named : gap.Named P)
    (token : TokenNamed P ⟨t, span⟩) (shifts : DueShifts span gap t c) : c.Named P := by
  cases shifts with
  | literal gap value => exact ⟨named, trivial, nofun⟩
  | name gap text => exact ⟨named, token text rfl, nofun⟩
  | varStart list => exact named.1
  | ifTest list => exact ⟨named.1, trivial⟩
  | whileTest list => exact ⟨named.1, trivial⟩
  | doStart list => exact named.1
  | forStart list => exact named.1
  | unary gap found allowed => exact named
  | paren gap => exact named
  | block list =>
      have plain : Owner.plain.Named P := trivial
      exact named_openBlock named.1 plain span
  | whileTrue list keyword =>
      have untested : (Owner.whileBody keyword none).Named P := nofun
      exact named_openBlock named.1 untested span
  | callBare outer callee =>
      refine ⟨named.1, ⟨named.2.1, trivial⟩, ?_⟩
      rintro f ⟨⟩
      exact named

theorem named_operandShifts {gap : Gap} {e : Expr} {span : Span} {m : Mark} {c : Config}
    (named : gap.Named P) (namedExpr : e.Named P) (shifts : OperandShifts span gap e m c) :
    c.Named P := by
  cases shifts with
  | binary e found => exact ⟨named, namedExpr⟩
  | call read => exact ⟨named, namedExpr, nofun⟩
  | assign read takes => exact ⟨named, namedExpr⟩
  | compound read takes found => exact ⟨named, namedExpr⟩

theorem named_wholeShifts {gap : Gap} {e : Expr} {span : Span} {t : Token} {c : Config}
    (named : gap.Named P) (namedExpr : e.Named P) (shifts : WholeShifts span e gap t c) :
    c.Named P := by
  cases shifts with
  | thenPart list keyword =>
      have owner : (Owner.thenPart keyword e).Named P := namedExpr
      exact named_openBlock named.1 owner span
  | whileBody list keyword =>
      have owner : (Owner.whileBody keyword (some e)).Named P := by rintro e' ⟨⟩; exact namedExpr
      exact named_openBlock named.1 owner span
  | forUpper list keyword mutable var => exact ⟨named.1, named.2, namedExpr⟩
  | forBody list keyword mutable var lower =>
      have owner : (Owner.forBody keyword mutable var lower e).Named P :=
        ⟨named.2.1, named.2.2, namedExpr⟩
      exact named_openBlock named.1 owner span
  | statement list done => exact named_next named.1 (named.2.complete? namedExpr done)
  | paren outer opening =>
      refine ⟨named, namedExpr, ?_⟩
      rintro f ⟨⟩
      exact named
  | call outer callee args =>
      refine ⟨named.1, ⟨named.2.1, Expr.namedAll_iff.2 ?_⟩, ?_⟩
      · intro e' member
        rcases List.mem_cons.1 (List.mem_reverse.1 member) with rfl | member
        · exact namedExpr
        · exact named.2.2 e' member
      · rintro f ⟨⟩
        exact ⟨named.1, named.2.1, nofun⟩
  | argument outer callee args =>
      exact ⟨named.1, named.2.1, List.forall_mem_cons.2 ⟨namedExpr, named.2.2⟩⟩

theorem named_shifts {c c' : Config} {span : Span} {t : Token} (named : c.Named P)
    (token : TokenNamed P ⟨t, span⟩) (shifts : Shifts span c t c') : c'.Named P := by
  cases shifts with
  | due shifts => exact named_dueShifts named token shifts
  | operand inside shifts => exact named_operandShifts named.1 named.2.1 shifts
  | whole shifts => exact named_wholeShifts named.1 named.2 shifts
  | closeBlock outer owner opening done =>
      refine named_closeBlock named.1 named.2.1 (Stmt.namedAll_iff.2 ?_)
      intro s member
      exact named.2.2 s (List.mem_reverse.1 member)
  | varMut list keyword => exact named
  | varName list keyword text => exact ⟨named, token text rfl⟩
  | varMutName list keyword text => exact ⟨named, token text rfl⟩
  | varEq list keyword mutable name => exact ⟨named.1, named.2, nofun⟩
  | varColon list keyword mutable name => exact named
  | varType list keyword mutable name ty => exact ⟨named.1, named.2, token ty rfl⟩
  | varTypedEq list keyword mutable name ty =>
      refine ⟨named.1, named.2.1, ?_⟩
      rintro ty ⟨⟩
      exact named.2.2
  | forMut list keyword => exact named
  | forName list keyword text => exact ⟨named, token text rfl⟩
  | forMutName list keyword text => exact ⟨named, token text rfl⟩
  | forEq list keyword mutable var => exact named
  | doBody list keyword =>
      have owner : (Owner.doBody keyword).Named P := trivial
      exact named_openBlock named owner span
  | doWhile list keyword body => exact named
  | elseStart list keyword test yes => exact named
  | elseBody list keyword test yes =>
      have owner : (Owner.elsePart keyword test yes).Named P := named.2
      exact named_openBlock named.1 owner span

/-- Taking a token brings in no other name. -/
theorem step?_named {c c' : Config} {t : Located} (named : c.Named P) (token : TokenNamed P t)
    (taken : c.step? t = some c') : c'.Named P :=
  named_shifts (named_settle named _) token (shifts_of_shift? taken)

theorem named_start : Config.start.Named P := ⟨nofun, trivial⟩

theorem run?_named {c c' : Config} {ts : List Located} (named : c.Named P)
    (tokens : ∀ t ∈ ts, TokenNamed P t) (taken : c.run? ts = some c') : c'.Named P := by
  induction ts generalizing c with
  | nil =>
      cases taken
      exact named
  | cons t ts ih =>
      obtain ⟨next, step, taken⟩ := Option.bind_eq_some_iff.1 taken
      obtain ⟨token, tokens⟩ := List.forall_mem_cons.1 tokens
      exact ih (step?_named named token step) tokens taken

theorem finish?_named {c : Config} {statements : List Stmt} (named : c.Named P)
    (done : c.finish? = some statements) : ∀ s ∈ statements, s.Named P := by
  have settled := named_settle named none
  rw [settle_of_finish? done] at settled
  exact fun s member => settled s (List.mem_reverse.2 member)

end Config

/-! ## Falling back -/

theorem Listing.Named.fallbacks {list : Listing} (named : list.Named P) :
    ∀ f ∈ list.fallbacks, f.gap.Named P := by
  induction list with
  | program done => exact List.forall_mem_nil _
  | block outer owner opening done ih =>
      obtain ⟨around, namedOwner, -⟩ := named
      refine List.forall_mem_append.2 ⟨?_, ih around⟩
      have statement (start : Nat) :
          (⟨.clause outer .statement, some start⟩ : Fallback).gap.Named P := ⟨around, trivial⟩
      cases owner with
      | plain => exact List.forall_mem_singleton.2 (statement _)
      | thenPart keyword test =>
          exact List.forall_mem_cons.2
            ⟨⟨around, trivial⟩, List.forall_mem_singleton.2 (statement _)⟩
      | elsePart keyword test yes =>
          exact List.forall_mem_cons.2
            ⟨⟨around, trivial⟩, List.forall_mem_singleton.2 (statement _)⟩
      | whileBody keyword test =>
          cases test <;> exact List.forall_mem_cons.2
            ⟨⟨around, trivial⟩, List.forall_mem_singleton.2 (statement _)⟩
      | doBody keyword => exact List.forall_mem_singleton.2 (statement _)
      | forBody keyword mutable var lower upper =>
          refine List.forall_mem_cons.2 ⟨⟨around, namedOwner.1, namedOwner.2.1⟩, ?_⟩
          exact List.forall_mem_cons.2
            ⟨⟨around, namedOwner.1⟩, List.forall_mem_singleton.2 (statement _)⟩

theorem Listing.Named.fallbacksFrom {list : Listing} (named : list.Named P) (keyword : Span) :
    ∀ f ∈ list.fallbacksFrom keyword, f.gap.Named P :=
  List.forall_mem_cons.2 ⟨⟨named, trivial⟩, named.fallbacks⟩

theorem Gap.Named.fallbacks {gap : Gap} (named : gap.Named P) :
    ∀ f ∈ gap.fallbacks, f.gap.Named P := by
  induction gap with
  | clause list part =>
      obtain ⟨around, namedPart⟩ := named
      cases part with
      | statement => exact around.fallbacks
      | forUpper keyword mutable var lower =>
          exact List.forall_mem_cons.2 ⟨⟨around, namedPart.1⟩, around.fallbacksFrom keyword⟩
      | _ => exact around.fallbacksFrom _
  | paren outer opening ih => exact List.forall_mem_cons.2 ⟨named, ih named⟩
  | call outer callee args ih =>
      obtain ⟨around, namedCallee, -⟩ := named
      rw [Gap.fallbacks]
      refine List.forall_mem_append.2 ⟨?_, ih around⟩
      split
      · exact List.forall_mem_singleton.2 around
      · exact List.forall_mem_cons.2
          ⟨⟨around, namedCallee, nofun⟩, List.forall_mem_singleton.2 around⟩
  | assign outer target ih => exact List.forall_mem_cons.2 ⟨named.1, ih named.1⟩
  | compound outer target op opSpan ih => exact List.forall_mem_cons.2 ⟨named.1, ih named.1⟩
  | unary outer op opSpan ih => exact List.forall_mem_cons.2 ⟨named, ih named⟩
  | binary outer left op opSpan ih => exact List.forall_mem_cons.2 ⟨named.1, ih named.1⟩

theorem Config.Named.fallbacks {c : Config} (named : c.Named P) :
    ∀ f ∈ c.fallbacks, f.gap.Named P := by
  have around {gap : Gap} (namedGap : gap.Named P) (start : Option Nat) :
      ∀ f ∈ (⟨gap, start⟩ : Fallback) :: gap.fallbacks, f.gap.Named P :=
    List.forall_mem_cons.2 ⟨namedGap, namedGap.fallbacks⟩
  cases c with
  | due gap => exact around named none
  | operand gap e inside =>
      refine List.forall_mem_append.2 ⟨fun f member => ?_, around named.1 _⟩
      exact named.2.2 f (Option.mem_toList.1 member)
  | whole gap e => exact around named.1 _
  | listed list => exact Listing.Named.fallbacks named
  | varStart list keyword => exact Listing.Named.fallbacksFrom named keyword
  | varMut list keyword => exact Listing.Named.fallbacksFrom named keyword
  | forStart list keyword => exact Listing.Named.fallbacksFrom named keyword
  | forMut list keyword => exact Listing.Named.fallbacksFrom named keyword
  | doStart list keyword => exact Listing.Named.fallbacksFrom named keyword
  | thenDone list keyword test yes =>
      have namedIf : (ifStmt keyword test yes).Named P := named.2
      exact List.forall_mem_cons.2 ⟨⟨named.1.push namedIf, trivial⟩, named.1.fallbacks⟩
  | elseStart list keyword test yes =>
      exact List.forall_mem_cons.2 ⟨⟨named.1, trivial⟩, named.1.fallbacksFrom keyword⟩
  | varNamed list keyword mutable name => exact named.1.fallbacksFrom keyword
  | varColon list keyword mutable name => exact named.1.fallbacksFrom keyword
  | varTyped list keyword mutable name ty => exact named.1.fallbacksFrom keyword
  | forNamed list keyword mutable var => exact named.1.fallbacksFrom keyword
  | doDone list keyword body => exact named.1.fallbacksFrom keyword

/-! ## Reading on -/

/-- Whether every name in what a reader keeps has a property: in what it has read, or in what it can
fall back to. -/
def Mode.Named (P : Name → Prop) : Mode → Prop
  | .reading c => c.Named P
  | .searching s => ∀ f ∈ s.gaps, f.gap.Named P

section

variable (missing : ∀ span, P (.missing span))

include missing

namespace Search

variable {s : Search}

theorem named_fill {f : Fallback} (named : f.gap.Named P) (next : Option Nat) :
    (s.fill f next).Named P :=
  ⟨named, missing _, nofun⟩

theorem named_resume? (named : ∀ f ∈ s.gaps, f.gap.Named P) {t : Located} {c : Config}
    (token : TokenNamed P t) (taken : s.resume? t = some c) : c.Named P := by
  obtain ⟨f, member, taken⟩ := List.exists_of_findSome?_eq_some taken
  exact Config.step?_named (named_fill missing (named f member) _) token taken

theorem named_conclude? (named : ∀ f ∈ s.gaps, f.gap.Named P) {body : List Stmt}
    (done : s.conclude? = some body) : ∀ x ∈ body, x.Named P := by
  obtain ⟨f, member, done⟩ := List.exists_of_findSome?_eq_some done
  exact Config.finish?_named (named_fill missing (named f member) _) done

end Search

namespace Reader

variable {r : Reader}

theorem named_pursue {s : Search} (named : ∀ f ∈ s.gaps, f.gap.Named P) {t : Located}
    (token : TokenNamed P t) : (r.pursue s t).mode.Named P := by
  unfold pursue
  split
  · rename_i c taken
    exact Search.named_resume? missing named token taken
  · exact named

theorem named_feed (named : r.mode.Named P) {t : Located} (token : TokenNamed P t) :
    (r.feed t).mode.Named P := by
  unfold feed
  split
  · rename_i s mode
    rw [mode] at named
    exact named_pursue missing named token
  · rename_i c mode
    rw [mode] at named
    split
    · rename_i c' taken
      exact Config.step?_named named token taken
    · have stuck := Config.named_settle named (some (.of t.token))
      exact named_pursue missing stuck.fallbacks token

theorem named_concludeSearch {s : Search} (named : ∀ f ∈ s.gaps, f.gap.Named P) :
    ∀ x ∈ (r.concludeSearch s).statements, x.Named P := by
  unfold concludeSearch
  split
  · rename_i body done
    exact Search.named_conclude? missing named done
  · exact List.forall_mem_nil _

theorem named_finish (named : r.mode.Named P) : ∀ s ∈ r.finish.statements, s.Named P := by
  unfold finish
  split
  · rename_i s mode
    rw [mode] at named
    exact named_concludeSearch missing named
  · rename_i c mode
    rw [mode] at named
    split
    · rename_i body done
      exact Config.finish?_named named done
    · have stuck := Config.named_settle named none
      exact named_concludeSearch missing stuck.fallbacks

/-- Whatever tokens are read, every name in the statements has a property that the names of the
tokens and the missing names have. -/
theorem named_read {ts : List Located} (tokens : ∀ t ∈ ts, TokenNamed P t) :
    ∀ s ∈ (read ts).statements, s.Named P := by
  have fed (r : Reader) (named : r.mode.Named P) : (ts.foldl feed r).mode.Named P := by
    induction ts generalizing r with
    | nil => exact named
    | cons t ts ih =>
        obtain ⟨token, tokens⟩ := List.forall_mem_cons.1 tokens
        exact ih tokens _ (named_feed missing named token)
  exact named_finish missing (fed start Config.named_start)

end Reader

end

end ScriptLang.Syntax
