/-
# ScriptLang.Proofs.Placing -- every range of a tree goes forward

The ranges of a tree are put together from those of tokens: one starts where some
token starts and stops where another one stops.  While a text is read, all that
has been kept starts before the end of what was read last, so a range that is put
together goes forward (`Config.step?_placed`).

That is also so after an error.  A missing name takes the range of what was given
up and dropped, and what is left of it starts before that range stops
(`Search.missingSpan_good`).  So whatever the text is, the ranges of its tree and
of its errors go forward, between offsets at which tokens start or stop
(`Reader.read_placed`).
-/
import ScriptLang.Proofs.Recovery
import ScriptLang.Proofs.Whole

namespace ScriptLang

set_option autoImplicit false

/-! ## Ranges -/

/-- Whether a range goes forward between offsets of some kind. -/
structure Span.Good (B : Nat → Prop) (s : Span) : Prop where
  le : s.start ≤ s.stop
  start : B s.start
  stop : B s.stop

/-- Whether a range that goes forward starts by an offset. -/
structure Span.GoodBy (B : Nat → Prop) (p : Nat) (s : Span) : Prop where
  good : s.Good B
  start_le : s.start ≤ p

variable {B : Nat → Prop} {p q : Nat}

namespace Span

variable {a b : Span}

theorem Good.point (here : B p) : (Span.point p).Good B := ⟨Nat.le_refl _, here, here⟩

theorem Good.goodBy (good : a.Good B) (le : a.stop ≤ p) : a.GoodBy B p :=
  ⟨good, Nat.le_trans good.le le⟩

theorem GoodBy.mono (good : a.GoodBy B p) (le : p ≤ q) : a.GoodBy B q :=
  ⟨good.good, Nat.le_trans good.start_le le⟩

/-- From something that starts by an offset to something that stops after it. -/
theorem GoodBy.through (first : a.GoodBy B p) (second : b.Good B) (le : p ≤ b.stop) :
    (a.through b).Good B :=
  ⟨Nat.le_trans first.start_le le, first.good.start, second.stop⟩

theorem Good.merge (first : a.Good B) (second : b.Good B) : (a.merge b).Good B where
  le := Nat.le_trans (Nat.min_le_left _ _) (Nat.le_trans first.le (Nat.le_max_left _ _))
  start := by
    show B (min a.start b.start)
    rcases Nat.le_total a.start b.start with le | le
    · rw [Nat.min_eq_left le]
      exact first.start
    · rw [Nat.min_eq_right le]
      exact second.start
  stop := by
    show B (max a.stop b.stop)
    rcases Nat.le_total a.stop b.stop with le | le
    · rw [Nat.max_eq_right le]
      exact second.stop
    · rw [Nat.max_eq_left le]
      exact first.stop

end Span

namespace Syntax

/-! ## Trees -/

mutual

/-- Whether all ranges in an expression go forward. -/
def Expr.Placed (B : Nat → Prop) : Expr → Prop
  | .literal span _ => span.Good B
  | .name n => n.span.Good B
  | .unary span _ opSpan operand => span.Good B ∧ opSpan.Good B ∧ operand.Placed B
  | .binary span left _ opSpan right =>
      span.Good B ∧ left.Placed B ∧ opSpan.Good B ∧ right.Placed B
  | .assign span target value => span.Good B ∧ target.span.Good B ∧ value.Placed B
  | .call span callee args => span.Good B ∧ callee.span.Good B ∧ Expr.PlacedAll B args
  | .paren span inner => span.Good B ∧ inner.Placed B

def Expr.PlacedAll (B : Nat → Prop) : List Expr → Prop
  | [] => True
  | e :: es => e.Placed B ∧ Expr.PlacedAll B es

end

mutual

/-- Whether all ranges in a statement go forward. -/
def Stmt.Placed (B : Nat → Prop) : Stmt → Prop
  | .block body => body.Placed B
  | .var span name _ ty init =>
      span.Good B ∧ name.span.Good B ∧ (∀ t ∈ ty, t.span.Good B) ∧ init.Placed B
  | .ifThen span test yes => span.Good B ∧ test.Placed B ∧ yes.Placed B
  | .ifElse span test yes no => span.Good B ∧ test.Placed B ∧ yes.Placed B ∧ no.Placed B
  | .whileLoop span test body => span.Good B ∧ (∀ e ∈ test, e.Placed B) ∧ body.Placed B
  | .doWhile span body test => span.Good B ∧ body.Placed B ∧ test.Placed B
  | .forTo span var _ lower upper body =>
      span.Good B ∧ var.span.Good B ∧ lower.Placed B ∧ upper.Placed B ∧ body.Placed B
  | .expr e => e.Placed B

def Block.Placed (B : Nat → Prop) : Block → Prop
  | .mk span statements => span.Good B ∧ Stmt.PlacedAll B statements

def Stmt.PlacedAll (B : Nat → Prop) : List Stmt → Prop
  | [] => True
  | s :: ss => s.Placed B ∧ Stmt.PlacedAll B ss

end

theorem Expr.placedAll_iff {args : List Expr} :
    Expr.PlacedAll B args ↔ ∀ e ∈ args, e.Placed B := by
  induction args with
  | nil => simp [Expr.PlacedAll]
  | cons e es ih => simp [Expr.PlacedAll, ih]

theorem Stmt.placedAll_iff {body : List Stmt} :
    Stmt.PlacedAll B body ↔ ∀ s ∈ body, s.Placed B := by
  induction body with
  | nil => simp [Stmt.PlacedAll]
  | cons s ss ih => simp [Stmt.PlacedAll, ih]

theorem Expr.Placed.span {e : Expr} (placed : e.Placed B) : e.span.Good B := by
  cases e with
  | literal span value => exact placed
  | name n => exact placed
  | unary span op opSpan operand => exact placed.1
  | binary span left op opSpan right => exact placed.1
  | assign span target value => exact placed.1
  | call span callee args => exact placed.1
  | paren span inner => exact placed.1

theorem Block.Placed.span {body : Block} (placed : body.Placed B) : body.span.Good B := by
  cases body
  exact placed.1

theorem Block.Placed.statements {body : Block} (placed : body.Placed B) :
    ∀ s ∈ body.statements, s.Placed B := by
  cases body
  exact Stmt.placedAll_iff.1 placed.2

/-- Whether all ranges in an expression go forward, and it starts by an offset. -/
structure Expr.PlacedBy (B : Nat → Prop) (p : Nat) (e : Expr) : Prop where
  placed : e.Placed B
  start_le : e.span.start ≤ p

theorem Expr.PlacedBy.mono {e : Expr} (placed : e.PlacedBy B p) (le : p ≤ q) : e.PlacedBy B q :=
  ⟨placed.placed, Nat.le_trans placed.start_le le⟩

theorem Expr.PlacedBy.span {e : Expr} (placed : e.PlacedBy B p) : e.span.GoodBy B p :=
  ⟨placed.placed.span, placed.start_le⟩

theorem Expr.Placed.placedBy {e : Expr} (placed : e.Placed B) (le : e.span.stop ≤ p) :
    e.PlacedBy B p :=
  ⟨placed, (placed.span.goodBy le).start_le⟩

/-! ## What has been read -/

def Owner.Placed (B : Nat → Prop) (p : Nat) : Owner → Prop
  | .plain => True
  | .thenPart keyword test => keyword.GoodBy B p ∧ test.PlacedBy B p
  | .elsePart keyword test yes => keyword.GoodBy B p ∧ test.PlacedBy B p ∧ yes.Placed B
  | .whileBody keyword test => keyword.GoodBy B p ∧ ∀ e ∈ test, e.PlacedBy B p
  | .doBody keyword => keyword.GoodBy B p
  | .forBody keyword _ var lower upper =>
      keyword.GoodBy B p ∧ var.span.Good B ∧ lower.PlacedBy B p ∧ upper.PlacedBy B p

/-- Whether all ranges in a list of statements go forward, and what is open in it starts by an
offset. -/
def Listing.Placed (B : Nat → Prop) (p : Nat) : Listing → Prop
  | .program done => ∀ s ∈ done, s.Placed B
  | .block outer owner opening done =>
      outer.Placed B p ∧ owner.Placed B p ∧ opening.GoodBy B p ∧ ∀ s ∈ done, s.Placed B

def Clause.Placed (B : Nat → Prop) (p : Nat) : Clause → Prop
  | .statement => True
  | .varInit keyword _ name ty =>
      keyword.GoodBy B p ∧ name.span.Good B ∧ ∀ t ∈ ty, t.span.Good B
  | .ifTest keyword | .whileTest keyword => keyword.GoodBy B p
  | .doTest keyword body => keyword.GoodBy B p ∧ body.Placed B
  | .forLower keyword _ var => keyword.GoodBy B p ∧ var.span.Good B
  | .forUpper keyword _ var lower => keyword.GoodBy B p ∧ var.span.Good B ∧ lower.PlacedBy B p

/-- Whether all ranges to the left of a gap go forward, and what is open there starts by an
offset. -/
def Gap.Placed (B : Nat → Prop) (p : Nat) : Gap → Prop
  | .clause list part => list.Placed B p ∧ part.Placed B p
  | .paren outer opening => outer.Placed B p ∧ opening.GoodBy B p
  | .call outer callee args =>
      outer.Placed B p ∧ callee.span.GoodBy B p ∧ ∀ e ∈ args, e.PlacedBy B p
  | .assign outer target => outer.Placed B p ∧ target.span.GoodBy B p
  | .compound outer target _ opSpan =>
      outer.Placed B p ∧ target.span.GoodBy B p ∧ opSpan.Good B
  | .unary outer _ opSpan => outer.Placed B p ∧ opSpan.GoodBy B p
  | .binary outer left _ opSpan => outer.Placed B p ∧ left.PlacedBy B p ∧ opSpan.Good B

/-- Whether a gap is placed, and what was read after it starts by an offset. -/
structure Fallback.Placed (B : Nat → Prop) (p : Nat) (f : Fallback) : Prop where
  gap : f.gap.Placed B p
  start : ∀ n ∈ f.start, B n ∧ n ≤ p

/-- Whether all ranges in what has been read go forward, and what is open starts by an offset.  What
is open around an operand starts before the operand stops. -/
def Config.Placed (B : Nat → Prop) (p : Nat) : Config → Prop
  | .due gap => gap.Placed B p
  | .operand gap e inside =>
      gap.Placed B e.span.stop ∧ e.Placed B ∧ e.span.stop ≤ p ∧ ∀ f ∈ inside, f.Placed B p
  | .whole gap e => gap.Placed B e.span.stop ∧ e.Placed B ∧ e.span.stop ≤ p
  | .listed list => list.Placed B p
  | .varStart list keyword | .varMut list keyword | .forStart list keyword | .forMut list keyword
  | .doStart list keyword => list.Placed B p ∧ keyword.GoodBy B p
  | .varNamed list keyword _ name | .varColon list keyword _ name
  | .forNamed list keyword _ name =>
      list.Placed B p ∧ keyword.GoodBy B p ∧ name.span.Good B
  | .varTyped list keyword _ name ty =>
      list.Placed B p ∧ keyword.GoodBy B p ∧ name.span.Good B ∧ ty.span.Good B
  | .doDone list keyword body => list.Placed B p ∧ keyword.GoodBy B p ∧ body.Placed B
  | .thenDone list keyword test yes =>
      list.Placed B p ∧ keyword.GoodBy B p ∧ test.PlacedBy B p ∧
        (Config.ifStmt keyword test yes).Placed B
  | .elseStart list keyword test yes =>
      list.Placed B p ∧ keyword.GoodBy B p ∧ test.PlacedBy B p ∧ yes.Placed B

/-! ### Later offsets -/

theorem Owner.Placed.mono {owner : Owner} (placed : owner.Placed B p) (le : p ≤ q) :
    owner.Placed B q := by
  cases owner with
  | plain => trivial
  | thenPart keyword test => exact ⟨placed.1.mono le, placed.2.mono le⟩
  | elsePart keyword test yes => exact ⟨placed.1.mono le, placed.2.1.mono le, placed.2.2⟩
  | whileBody keyword test => exact ⟨placed.1.mono le, fun e member => (placed.2 e member).mono le⟩
  | doBody keyword => exact Span.GoodBy.mono placed le
  | forBody keyword mutable var lower upper =>
      exact ⟨placed.1.mono le, placed.2.1, placed.2.2.1.mono le, placed.2.2.2.mono le⟩

theorem Listing.Placed.mono {list : Listing} (placed : list.Placed B p) (le : p ≤ q) :
    list.Placed B q := by
  induction list with
  | program done => exact placed
  | block outer owner opening done ih =>
      exact ⟨ih placed.1, placed.2.1.mono le, placed.2.2.1.mono le, placed.2.2.2⟩

theorem Clause.Placed.mono {clause : Clause} (placed : clause.Placed B p) (le : p ≤ q) :
    clause.Placed B q := by
  cases clause with
  | statement => trivial
  | varInit keyword mutable name ty => exact ⟨placed.1.mono le, placed.2⟩
  | ifTest keyword => exact Span.GoodBy.mono placed le
  | whileTest keyword => exact Span.GoodBy.mono placed le
  | doTest keyword body => exact ⟨placed.1.mono le, placed.2⟩
  | forLower keyword mutable var => exact ⟨placed.1.mono le, placed.2⟩
  | forUpper keyword mutable var lower => exact ⟨placed.1.mono le, placed.2.1, placed.2.2.mono le⟩

theorem Gap.Placed.mono {gap : Gap} (placed : gap.Placed B p) (le : p ≤ q) : gap.Placed B q := by
  induction gap with
  | clause list clause => exact ⟨placed.1.mono le, placed.2.mono le⟩
  | paren outer opening ih => exact ⟨ih placed.1, placed.2.mono le⟩
  | call outer callee args ih =>
      exact ⟨ih placed.1, placed.2.1.mono le, fun e member => (placed.2.2 e member).mono le⟩
  | assign outer target ih => exact ⟨ih placed.1, placed.2.mono le⟩
  | compound outer target op opSpan ih => exact ⟨ih placed.1, placed.2.1.mono le, placed.2.2⟩
  | unary outer op opSpan ih => exact ⟨ih placed.1, placed.2.mono le⟩
  | binary outer left op opSpan ih => exact ⟨ih placed.1, placed.2.1.mono le, placed.2.2⟩

/-! ## Taking a token -/

theorem Listing.Placed.push {list : Listing} {s : Stmt} (placed : list.Placed B p)
    (placedStmt : s.Placed B) : (list.push s).Placed B p := by
  cases list with
  | program done => exact List.forall_mem_cons.2 ⟨placedStmt, placed⟩
  | block outer owner opening done =>
      exact ⟨placed.1, placed.2.1, placed.2.2.1, List.forall_mem_cons.2 ⟨placedStmt, placed.2.2.2⟩⟩

/-- A statement is complete with an expression that stops after all that is open. -/
theorem Clause.Placed.complete? {clause : Clause} {e : Expr} {s : Stmt} (placed : clause.Placed B p)
    (placedExpr : e.Placed B) (le : p ≤ e.span.stop) (done : clause.complete? e = some s) :
    s.Placed B := by
  cases clause with
  | statement => cases done; exact placedExpr
  | varInit keyword mutable name ty =>
      cases done
      exact ⟨placed.1.through placedExpr.span le, placed.2.1, placed.2.2, placedExpr⟩
  | doTest keyword body =>
      cases done
      exact ⟨placed.1.through placedExpr.span le, placed.2, placedExpr⟩
  | ifTest keyword => cases done
  | whileTest keyword => cases done
  | forLower keyword mutable var => cases done
  | forUpper keyword mutable var lower => cases done

/-- Operators take an operand that stops after all that is open, and stop where it stops. -/
theorem Gap.Placed.absorb (tier : Nat) {gap : Gap} {e : Expr} (placed : gap.Placed B p)
    (placedExpr : e.Placed B) (le : p ≤ e.span.stop) :
    (gap.absorb tier e).1.Placed B p ∧ (gap.absorb tier e).2.Placed B ∧
      (gap.absorb tier e).2.span.stop = e.span.stop := by
  fun_induction Gap.absorb tier gap e with
  | case1 outer op opSpan e ih =>
      exact ih placed.1 ⟨placed.2.through placedExpr.span le, placed.2.good, placedExpr⟩ le
  | case2 outer left op opSpan e tight ih =>
      exact ih placed.1 ⟨placed.2.1.span.through placedExpr.span le, placed.2.1.placed, placed.2.2,
        placedExpr⟩ le
  | case3 outer left op opSpan e loose => exact ⟨placed, placedExpr, rfl⟩
  | case4 gap e => exact ⟨placed, placedExpr, rfl⟩

theorem Gap.Placed.close {gap : Gap} {e : Expr} (placed : gap.Placed B p)
    (placedExpr : e.Placed B) (le : p ≤ e.span.stop) :
    (gap.close e).1.Placed B p ∧ (gap.close e).2.Placed B ∧
      (gap.close e).2.span.stop = e.span.stop := by
  fun_induction Gap.close gap e with
  | case1 outer op opSpan e ih =>
      exact ih placed.1 ⟨placed.2.through placedExpr.span le, placed.2.good, placedExpr⟩ le
  | case2 outer left op opSpan e ih =>
      exact ih placed.1 ⟨placed.2.1.span.through placedExpr.span le, placed.2.1.placed, placed.2.2,
        placedExpr⟩ le
  | case3 outer target e ih =>
      exact ih placed.1 ⟨placed.2.through placedExpr.span le, placed.2.good, placedExpr⟩ le
  | case4 outer target op opSpan e ih =>
      have span := placed.2.1.through placedExpr.span le
      have target := placed.2.1.good
      exact ih placed.1 ⟨span, target, span, target, placed.2.2, placedExpr⟩ le
  | case5 gap e => exact ⟨placed, placedExpr, rfl⟩

namespace Config

theorem placed_afterStatement {list : Listing} (placed : list.Placed B p) (next : Option Terminal) :
    (afterStatement list next).Placed B p := by
  rcases afterStatement_cases list next with ⟨-, same⟩ | same
  · rw [same]
    exact placed
  · rw [same]
    exact ⟨placed, trivial⟩

theorem placed_afterExpression {gap : Gap} {e : Expr} (placed : gap.Placed B e.span.stop)
    (placedExpr : e.Placed B) (le : e.span.stop ≤ p) (next : Option Terminal) :
    (afterExpression gap e next).Placed B p := by
  rcases afterExpression_cases gap e next with ⟨list, part, s, rfl, done, -, same⟩ | same
  · rw [same]
    exact (placed.1.mono le).push (placed.2.complete? placedExpr (Nat.le_refl _) done)
  · rw [same]
    exact ⟨placed, placedExpr, le⟩

theorem placed_settle {c : Config} (placed : c.Placed B p) (next : Option Terminal) :
    (c.settle next).Placed B p := by
  fun_cases settle next c with
  | case1 gap e inside op found filled =>
      obtain ⟨placedGap, placedExpr, stop⟩ := placed.1.absorb op.tier placed.2.1 (Nat.le_refl _)
      rw [← stop] at placedGap
      refine ⟨placedGap, placedExpr, stop ▸ placed.2.2.1, ?_⟩
      rintro f ⟨⟩
  | case2 gap e inside found closes filled =>
      obtain ⟨placedGap, placedExpr, stop⟩ := placed.1.close placed.2.1 (Nat.le_refl _)
      rw [← stop] at placedGap
      exact placed_afterExpression placedGap placedExpr (stop ▸ placed.2.2.1) next
  | case3 gap e inside found open_ => exact placed
  | case4 gap e => exact placed_afterExpression placed.1 placed.2.1 placed.2.2 next
  | case5 list => exact placed_afterStatement placed.1 next
  | case6 list keyword test yes ends =>
      exact placed_afterStatement (placed.1.push placed.2.2.2) next
  | case7 list keyword test yes goes => exact placed
  | case8 => exact placed

section Shift

variable {span : Span} (good : span.Good B) (after : p ≤ span.start)

include good

theorem placed_openBlock {list : Listing} {owner : Owner} (placed : list.Placed B span.stop)
    (placedOwner : owner.Placed B span.stop) : (openBlock list owner span).Placed B span.stop :=
  ⟨⟨placed, placedOwner, good.goodBy (Nat.le_refl _), List.forall_mem_nil _⟩, trivial⟩

omit good in
theorem placed_next {list : Listing} {s : Stmt} (placed : list.Placed B p)
    (placedStmt : s.Placed B) : (next list s).Placed B p :=
  ⟨placed.push placedStmt, trivial⟩

include after

/-- A token that stands after all that is open stops after it. -/
theorem le_stop : p ≤ span.stop := Nat.le_trans after good.le

omit good after in
/-- A block stops after all that is open around it. -/
theorem placed_closeBlock {list : Listing} {owner : Owner} {block : Block}
    (placed : list.Placed B p) (placedOwner : owner.Placed B p) (placedBlock : block.Placed B)
    (le : p ≤ block.span.stop) :
    (closeBlock list owner block).Placed B block.span.stop := by
  have later := placed.mono le
  cases owner with
  | plain => exact placed_next later placedBlock
  | thenPart keyword test =>
      exact ⟨later, placedOwner.1.mono le, placedOwner.2.mono le,
        placedOwner.1.through placedBlock.span le, placedOwner.2.placed, placedBlock⟩
  | elsePart keyword test yes =>
      exact placed_next later ⟨placedOwner.1.through placedBlock.span le, placedOwner.2.1.placed,
        placedOwner.2.2, placedBlock⟩
  | whileBody keyword test =>
      exact placed_next later ⟨placedOwner.1.through placedBlock.span le,
        fun e member => (placedOwner.2 e member).placed, placedBlock⟩
  | doBody keyword => exact ⟨later, Span.GoodBy.mono placedOwner le, placedBlock⟩
  | forBody keyword mutable var lower upper =>
      exact placed_next later ⟨placedOwner.1.through placedBlock.span le, placedOwner.2.1,
        placedOwner.2.2.1.placed, placedOwner.2.2.2.placed, placedBlock⟩

/-- Where an operand is due, only what the token starts is new. -/
theorem placed_dueShifts {gap : Gap} {t : Token} {c : Config} (placed : gap.Placed B p)
    (shifts : DueShifts span gap t c) : c.Placed B span.stop := by
  have later := placed.mono (le_stop good after)
  have here : span.GoodBy B span.stop := good.goodBy (Nat.le_refl _)
  cases shifts with
  | literal gap value => exact ⟨later, good, Nat.le_refl _, nofun⟩
  | name gap text => exact ⟨later, good, Nat.le_refl _, nofun⟩
  | varStart list => exact ⟨later.1, here⟩
  | ifTest list => exact ⟨later.1, here⟩
  | whileTest list => exact ⟨later.1, here⟩
  | doStart list => exact ⟨later.1, here⟩
  | forStart list => exact ⟨later.1, here⟩
  | unary gap found allowed => exact ⟨later, here⟩
  | paren gap => exact ⟨later, here⟩
  | block list => exact placed_openBlock good later.1 trivial
  | whileTrue list keyword =>
      have owner : (Owner.whileBody keyword none).Placed B span.stop := ⟨later.2, nofun⟩
      exact placed_openBlock good later.1 owner
  | callBare outer callee =>
      refine ⟨later.1, ⟨placed.2.1.through good (le_stop good after), placed.2.1.good, trivial⟩,
        Nat.le_refl _, ?_⟩
      rintro f ⟨⟩
      refine ⟨⟨later.1, later.2.1, List.forall_mem_nil _⟩, ?_⟩
      rintro n ⟨⟩
      exact ⟨good.start, good.le⟩

theorem placed_operandShifts {gap : Gap} {e : Expr} {m : Mark} {c : Config}
    (placed : gap.Placed B e.span.stop) (placedExpr : e.Placed B) (le : e.span.stop ≤ p)
    (shifts : OperandShifts span gap e m c) : c.Placed B span.stop := by
  have past := Nat.le_trans le (le_stop good after)
  have later := placed.mono past
  have here := placedExpr.placedBy past
  cases shifts with
  | binary e found => exact ⟨later, here, good⟩
  | call read => exact ⟨later, here.span, List.forall_mem_nil _⟩
  | assign read takes => exact ⟨later, here.span⟩
  | compound read takes found => exact ⟨later, here.span, good⟩

theorem placed_wholeShifts {gap : Gap} {e : Expr} {t : Token} {c : Config}
    (placed : gap.Placed B e.span.stop) (placedExpr : e.Placed B) (le : e.span.stop ≤ p)
    (shifts : WholeShifts span e gap t c) : c.Placed B span.stop := by
  have past := Nat.le_trans le (le_stop good after)
  have later := placed.mono past
  have here := placedExpr.placedBy past
  cases shifts with
  | thenPart list keyword =>
      have owner : (Owner.thenPart keyword e).Placed B span.stop := ⟨later.2, here⟩
      exact placed_openBlock good later.1 owner
  | whileBody list keyword =>
      have owner : (Owner.whileBody keyword (some e)).Placed B span.stop := by
        refine ⟨later.2, ?_⟩
        rintro e' ⟨⟩
        exact here
      exact placed_openBlock good later.1 owner
  | forUpper list keyword mutable var => exact ⟨later.1, later.2.1, later.2.2, here⟩
  | forBody list keyword mutable var lower =>
      have owner : (Owner.forBody keyword mutable var lower e).Placed B span.stop :=
        ⟨later.2.1, later.2.2.1, later.2.2.2, here⟩
      exact placed_openBlock good later.1 owner
  | statement list done =>
      exact placed_next later.1 (placed.2.complete? placedExpr (Nat.le_refl _) done)
  | paren outer opening =>
      refine ⟨later.1, ⟨placed.2.through good past, placedExpr⟩, Nat.le_refl _, ?_⟩
      rintro f ⟨⟩
      refine ⟨later, ?_⟩
      rintro n ⟨⟩
      exact ⟨placedExpr.span.start, here.start_le⟩
  | call outer callee args =>
      have all : ∀ e' ∈ e :: args, e'.PlacedBy B span.stop :=
        List.forall_mem_cons.2 ⟨here, later.2.2⟩
      refine ⟨later.1, ⟨placed.2.1.through good past, placed.2.1.good, ?_⟩, Nat.le_refl _, ?_⟩
      · refine Expr.placedAll_iff.2 fun e' member => ?_
        exact (all e' (List.mem_reverse.1 member)).placed
      · rintro f ⟨⟩
        refine ⟨⟨later.1, later.2.1, List.forall_mem_nil _⟩, ?_⟩
        rintro n ⟨⟩
        have first := all (args.getLastD e) List.getLastD_mem_cons
        exact ⟨first.placed.span.start, first.start_le⟩
  | argument outer callee args =>
      exact ⟨later.1, later.2.1, List.forall_mem_cons.2 ⟨here, later.2.2⟩⟩

/-- What is open after a token starts before the token stops. -/
theorem placed_shifts {c c' : Config} {t : Token} (placed : c.Placed B p)
    (shifts : Shifts span c t c') : c'.Placed B span.stop := by
  have past := le_stop good after
  cases shifts with
  | due shifts => exact placed_dueShifts good after placed shifts
  | operand inside shifts =>
      exact placed_operandShifts good after placed.1 placed.2.1 placed.2.2.1 shifts
  | whole shifts => exact placed_wholeShifts good after placed.1 placed.2.1 placed.2.2 shifts
  | closeBlock outer owner opening done =>
      have block : (Block.mk (opening.through span) done.reverse).Placed B :=
        ⟨placed.2.2.1.through good past,
          Stmt.placedAll_iff.2 fun s member => placed.2.2.2 s (List.mem_reverse.1 member)⟩
      exact placed_closeBlock placed.1 placed.2.1 block past
  | varMut list keyword => exact ⟨placed.1.mono past, placed.2.mono past⟩
  | varName list keyword text => exact ⟨placed.1.mono past, placed.2.mono past, good⟩
  | varMutName list keyword text => exact ⟨placed.1.mono past, placed.2.mono past, good⟩
  | varEq list keyword mutable name =>
      exact ⟨placed.1.mono past, placed.2.1.mono past, placed.2.2, nofun⟩
  | varColon list keyword mutable name =>
      exact ⟨placed.1.mono past, placed.2.1.mono past, placed.2.2⟩
  | varType list keyword mutable name ty =>
      exact ⟨placed.1.mono past, placed.2.1.mono past, placed.2.2, good⟩
  | varTypedEq list keyword mutable name ty =>
      refine ⟨placed.1.mono past, placed.2.1.mono past, placed.2.2.1, ?_⟩
      rintro ty ⟨⟩
      exact placed.2.2.2
  | forMut list keyword => exact ⟨placed.1.mono past, placed.2.mono past⟩
  | forName list keyword text => exact ⟨placed.1.mono past, placed.2.mono past, good⟩
  | forMutName list keyword text => exact ⟨placed.1.mono past, placed.2.mono past, good⟩
  | forEq list keyword mutable var =>
      exact ⟨placed.1.mono past, placed.2.1.mono past, placed.2.2⟩
  | doBody list keyword =>
      have owner : (Owner.doBody keyword).Placed B span.stop := placed.2.mono past
      exact placed_openBlock good (placed.1.mono past) owner
  | doWhile list keyword body =>
      exact ⟨placed.1.mono past, placed.2.1.mono past, placed.2.2⟩
  | elseStart list keyword test yes =>
      exact ⟨placed.1.mono past, placed.2.1.mono past, placed.2.2.1.mono past, placed.2.2.2.2.2⟩
  | elseBody list keyword test yes =>
      have owner : (Owner.elsePart keyword test yes).Placed B span.stop :=
        ⟨placed.2.1.mono past, placed.2.2.1.mono past, placed.2.2.2⟩
      exact placed_openBlock good (placed.1.mono past) owner

end Shift

theorem step?_placed {c c' : Config} {t : Located} (placed : c.Placed B p) (good : t.span.Good B)
    (after : p ≤ t.span.start) (taken : c.step? t = some c') : c'.Placed B t.span.stop :=
  placed_shifts good after (placed_settle placed _) (shifts_of_shift? taken)

theorem finish?_placed {c : Config} {body : List Stmt} (placed : c.Placed B p)
    (done : c.finish? = some body) : ∀ s ∈ body, s.Placed B := by
  have settled := placed_settle placed none
  rw [settle_of_finish? done] at settled
  exact fun s member => settled s (List.mem_reverse.2 member)

end Config

/-! ## Falling back -/

/-- The gap where something starts that is open, and nothing else is given up. -/
theorem Fallback.placed_from {gap : Gap} {span : Span} (placed : gap.Placed B p)
    (start : span.GoodBy B p) : (⟨gap, some span.start⟩ : Fallback).Placed B p := by
  refine ⟨placed, ?_⟩
  rintro n ⟨⟩
  exact ⟨start.good.start, start.start_le⟩

theorem Listing.Placed.fallbacks {list : Listing} (placed : list.Placed B p) :
    ∀ f ∈ list.fallbacks, f.Placed B p := by
  induction list with
  | program done => exact List.forall_mem_nil _
  | block outer owner opening done ih =>
      obtain ⟨around, placedOwner, brace, -⟩ := placed
      have clause {part : Clause} {span : Span} (placedPart : part.Placed B p)
          (start : span.GoodBy B p) :
          (⟨.clause outer part, some span.start⟩ : Fallback).Placed B p :=
        Fallback.placed_from ⟨around, placedPart⟩ start
      refine List.forall_mem_append.2 ⟨?_, ih around⟩
      cases owner with
      | plain => exact List.forall_mem_singleton.2 (clause trivial brace)
      | thenPart keyword test =>
          exact List.forall_mem_cons.2 ⟨clause placedOwner.1 placedOwner.2.span,
            List.forall_mem_singleton.2 (clause trivial placedOwner.1)⟩
      | elsePart keyword test yes =>
          exact List.forall_mem_cons.2 ⟨clause placedOwner.1 placedOwner.2.1.span,
            List.forall_mem_singleton.2 (clause trivial placedOwner.1)⟩
      | whileBody keyword test =>
          cases test with
          | none =>
              exact List.forall_mem_cons.2 ⟨clause placedOwner.1 brace,
                List.forall_mem_singleton.2 (clause trivial placedOwner.1)⟩
          | some test =>
              exact List.forall_mem_cons.2 ⟨clause placedOwner.1 (placedOwner.2 test rfl).span,
                List.forall_mem_singleton.2 (clause trivial placedOwner.1)⟩
      | doBody keyword => exact List.forall_mem_singleton.2 (clause trivial placedOwner)
      | forBody keyword mutable var lower upper =>
          obtain ⟨start, named, first, second⟩ := placedOwner
          refine List.forall_mem_cons.2 ⟨clause ⟨start, named, first⟩ second.span, ?_⟩
          exact List.forall_mem_cons.2 ⟨clause ⟨start, named⟩ first.span,
            List.forall_mem_singleton.2 (clause trivial start)⟩

theorem Listing.Placed.fallbacksFrom {list : Listing} {keyword : Span} (placed : list.Placed B p)
    (start : keyword.GoodBy B p) : ∀ f ∈ list.fallbacksFrom keyword, f.Placed B p :=
  List.forall_mem_cons.2 ⟨Fallback.placed_from ⟨placed, trivial⟩ start, placed.fallbacks⟩

theorem Gap.Placed.fallbacks {gap : Gap} (placed : gap.Placed B p) :
    ∀ f ∈ gap.fallbacks, f.Placed B p := by
  induction gap with
  | clause list part =>
      obtain ⟨around, placedPart⟩ := placed
      cases part with
      | statement => exact around.fallbacks
      | varInit keyword mutable name ty => exact around.fallbacksFrom placedPart.1
      | ifTest keyword => exact around.fallbacksFrom placedPart
      | whileTest keyword => exact around.fallbacksFrom placedPart
      | doTest keyword body => exact around.fallbacksFrom placedPart.1
      | forLower keyword mutable var => exact around.fallbacksFrom placedPart.1
      | forUpper keyword mutable var lower =>
          obtain ⟨start, named, first⟩ := placedPart
          exact List.forall_mem_cons.2 ⟨Fallback.placed_from ⟨around, start, named⟩ first.span,
            around.fallbacksFrom start⟩
  | paren outer opening ih =>
      exact List.forall_mem_cons.2 ⟨Fallback.placed_from placed.1 placed.2, ih placed.1⟩
  | call outer callee args ih =>
      obtain ⟨around, named, placedArgs⟩ := placed
      have own := Fallback.placed_from around named
      rw [Gap.fallbacks]
      refine List.forall_mem_append.2 ⟨?_, ih around⟩
      split
      · exact List.forall_mem_singleton.2 own
      · rename_i first found
        have placedFirst := (placedArgs first (List.mem_of_getLast? found)).span
        refine List.forall_mem_cons.2 ⟨?_, List.forall_mem_singleton.2 own⟩
        exact Fallback.placed_from ⟨around, named, List.forall_mem_nil _⟩ placedFirst
  | assign outer target ih =>
      exact List.forall_mem_cons.2 ⟨Fallback.placed_from placed.1 placed.2, ih placed.1⟩
  | compound outer target op opSpan ih =>
      exact List.forall_mem_cons.2 ⟨Fallback.placed_from placed.1 placed.2.1, ih placed.1⟩
  | unary outer op opSpan ih =>
      exact List.forall_mem_cons.2 ⟨Fallback.placed_from placed.1 placed.2, ih placed.1⟩
  | binary outer left op opSpan ih =>
      exact List.forall_mem_cons.2 ⟨Fallback.placed_from placed.1 placed.2.1.span, ih placed.1⟩

theorem Config.Placed.fallbacks {c : Config} (placed : c.Placed B p) :
    ∀ f ∈ c.fallbacks, f.Placed B p := by
  -- what is open around an expression that was read, and the gap of the expression itself
  have around {gap : Gap} {e : Expr} (placedGap : gap.Placed B e.span.stop)
      (placedExpr : e.Placed B) (le : e.span.stop ≤ p) :
      ∀ f ∈ (⟨gap, some e.span.start⟩ : Fallback) :: gap.fallbacks, f.Placed B p := by
    have later := placedGap.mono le
    exact List.forall_mem_cons.2 ⟨Fallback.placed_from later (placedExpr.span.goodBy le),
      later.fallbacks⟩
  cases c with
  | due gap =>
      refine List.forall_mem_cons.2 ⟨⟨placed, nofun⟩, ?_⟩
      exact Gap.Placed.fallbacks placed
  | operand gap e inside =>
      refine List.forall_mem_append.2 ⟨fun f member => ?_, around placed.1 placed.2.1 placed.2.2.1⟩
      exact placed.2.2.2 f (Option.mem_toList.1 member)
  | whole gap e => exact around placed.1 placed.2.1 placed.2.2
  | listed list => exact Listing.Placed.fallbacks placed
  | varStart list keyword => exact placed.1.fallbacksFrom placed.2
  | varMut list keyword => exact placed.1.fallbacksFrom placed.2
  | varNamed list keyword mutable name => exact placed.1.fallbacksFrom placed.2.1
  | varColon list keyword mutable name => exact placed.1.fallbacksFrom placed.2.1
  | varTyped list keyword mutable name ty => exact placed.1.fallbacksFrom placed.2.1
  | forStart list keyword => exact placed.1.fallbacksFrom placed.2
  | forMut list keyword => exact placed.1.fallbacksFrom placed.2
  | forNamed list keyword mutable var => exact placed.1.fallbacksFrom placed.2.1
  | doStart list keyword => exact placed.1.fallbacksFrom placed.2
  | doDone list keyword body => exact placed.1.fallbacksFrom placed.2.1
  | thenDone list keyword test yes =>
      have complete := placed.1.push placed.2.2.2
      refine List.forall_mem_cons.2 ⟨⟨⟨complete, trivial⟩, ?_⟩, placed.1.fallbacks⟩
      exact nofun
  | elseStart list keyword test yes =>
      exact List.forall_mem_cons.2
        ⟨Fallback.placed_from ⟨placed.1, placed.2.1⟩ placed.2.2.1.span,
          placed.1.fallbacksFrom placed.2.1⟩

/-! ## Missing names -/

namespace Search

/-- Where what was read or dropped stops. -/
def stop (s : Search) : Nat :=
  match s.dropped with
  | some d => d.stop
  | none => s.last

/-- Whether all that a search can fall back to is open before an offset, and what was read and
dropped lies after it. -/
structure Placed (B : Nat → Prop) (p : Nat) (s : Search) : Prop where
  error : s.error.span.Good B
  gaps : ∀ f ∈ s.gaps, f.Placed B p
  last : B s.last
  le_last : p ≤ s.last
  dropped : ∀ d ∈ s.dropped, d.Good B ∧ p ≤ d.start

variable {s : Search}

/-- The range of a missing name goes forward and stops before the next token. -/
theorem missingSpan_good (placed : s.Placed B p) {start next : Option Nat}
    (before : ∀ n ∈ start, B n ∧ n ≤ p) (after : ∀ n ∈ next, B n ∧ s.stop ≤ n) :
    (s.missingSpan start next).Good B ∧ p ≤ (s.missingSpan start next).stop ∧
      ∀ n ∈ next, (s.missingSpan start next).stop ≤ n := by
  obtain ⟨error, gaps, last, dropped⟩ := s
  obtain ⟨-, -, here, le, range⟩ := placed
  cases dropped with
  | some d =>
      -- the range stops with what was dropped
      obtain ⟨good, lower⟩ := range d rfl
      have stop : p ≤ d.stop := Nat.le_trans lower good.le
      refine ⟨?_, stop, fun n member => (after n member).2⟩
      cases start with
      | none => exact good
      | some n =>
          obtain ⟨from_, upper⟩ := before n rfl
          exact ⟨Nat.le_trans upper stop, from_, good.stop⟩
  | none =>
      cases start with
      | some n =>
          -- the range is what is given up
          obtain ⟨from_, upper⟩ := before n rfl
          exact ⟨⟨Nat.le_trans upper le, from_, here⟩, le, fun n member => (after n member).2⟩
      | none =>
          -- the range stands between what was read and the next token
          cases next with
          | none => exact ⟨⟨Nat.le_refl _, here, here⟩, le, nofun⟩
          | some n =>
              obtain ⟨there, past⟩ := after n rfl
              refine ⟨⟨past, here, there⟩, Nat.le_trans le past, ?_⟩
              rintro n ⟨⟩
              exact Nat.le_refl _

theorem placed_fill (placed : s.Placed B p) {f : Fallback} (member : f ∈ s.gaps)
    {next : Option Nat} (after : ∀ n ∈ next, B n ∧ s.stop ≤ n) :
    ∃ q, (s.fill f next).Placed B q ∧ ∀ n ∈ next, q ≤ n := by
  obtain ⟨gap, start⟩ := placed.gaps f member
  obtain ⟨good, later, before⟩ := missingSpan_good placed start after
  exact ⟨_, ⟨gap.mono later, good, Nat.le_refl _, nofun⟩, before⟩

theorem placed_resume? (placed : s.Placed B p) {t : Located} {c : Config} (good : t.span.Good B)
    (after : s.stop ≤ t.span.start) (taken : s.resume? t = some c) : c.Placed B t.span.stop := by
  obtain ⟨f, member, taken⟩ := List.exists_of_findSome?_eq_some taken
  have next : ∀ n ∈ some t.span.start, B n ∧ s.stop ≤ n := by
    rintro n ⟨⟩
    exact ⟨good.start, after⟩
  obtain ⟨q, filled, before⟩ := placed_fill placed member next
  exact Config.step?_placed filled good (before _ rfl) taken

theorem placed_conclude? (placed : s.Placed B p) {body : List Stmt}
    (done : s.conclude? = some body) : ∀ x ∈ body, x.Placed B := by
  obtain ⟨f, member, done⟩ := List.exists_of_findSome?_eq_some done
  have next : ∀ n ∈ (none : Option Nat), B n ∧ s.stop ≤ n := nofun
  obtain ⟨q, filled, -⟩ := placed_fill placed member next
  exact Config.finish?_placed filled done

theorem placed_drop (placed : s.Placed B p) {t : Located} (good : t.span.Good B)
    (after : s.stop ≤ t.span.start) : (s.drop t).Placed B p := by
  refine ⟨placed.error, placed.gaps, placed.last, placed.le_last, ?_⟩
  rintro d ⟨⟩
  obtain ⟨error, gaps, last, dropped⟩ := s
  cases dropped with
  | none => exact ⟨good, Nat.le_trans placed.le_last after⟩
  | some d =>
      obtain ⟨before, lower⟩ := placed.dropped d rfl
      exact ⟨(before.goodBy after).through good good.le, lower⟩

end Search

/-! ## Readers -/

namespace Reader

/-- Whether all ranges that a reader has kept go forward, and what is open starts before the end of
the last token. -/
structure Placed (B : Nat → Prop) (r : Reader) : Prop where
  seen : B r.seen
  errors : ∀ e ∈ r.errors, e.span.Good B
  reading : ∀ c, r.mode = .reading c → r.last = r.seen ∧ c.Placed B r.seen
  searching : ∀ s, r.mode = .searching s → ∃ p, s.Placed B p ∧ s.stop ≤ r.seen

variable {r : Reader}

theorem placed_pursue (placed : r.Placed B) {s : Search} (placedSearch : s.Placed B p) {t : Located}
    (good : t.span.Good B) (after : s.stop ≤ t.span.start) : (r.pursue s t).Placed B := by
  unfold pursue
  split
  · rename_i c taken
    refine ⟨good.stop, List.forall_mem_cons.2 ⟨placedSearch.error, placed.errors⟩, ?_, nofun⟩
    rintro c' ⟨⟩
    exact ⟨rfl, Search.placed_resume? placedSearch good after taken⟩
  · refine ⟨good.stop, placed.errors, nofun, ?_⟩
    rintro s' ⟨⟩
    exact ⟨p, Search.placed_drop placedSearch good after, Nat.le_refl _⟩

/-- A search starts from a configuration that is open where reading stopped. -/
theorem placed_search {c : Config} {last : Nat} {next : Option Nat} {e : SyntaxError}
    (placed : c.Placed B last) (here : B last) (good : e.span.Good B)
    (after : ∀ n ∈ next, B n ∧ last ≤ n) : (search c last next e).Placed B last := by
  have bound : B (next.getD last) ∧ last ≤ next.getD last := by
    cases next with
    | none => exact ⟨here, Nat.le_refl _⟩
    | some n => exact after n rfl
  refine ⟨good, placed.fallbacks, ?_, ?_, nofun⟩
  · show B (if c.isFresh then next.getD last else last)
    split
    · exact bound.1
    · exact here
  · show last ≤ if c.isFresh then next.getD last else last
    split
    · exact bound.2
    · exact Nat.le_refl _

theorem stop_search_le {c : Config} {last n : Nat} {e : SyntaxError} (le : last ≤ n) :
    (search c last (some n) e).stop ≤ n := by
  show (if c.isFresh then n else last) ≤ n
  split
  · exact Nat.le_refl _
  · exact le

theorem placed_feed (placed : r.Placed B) {t : Located} (good : t.span.Good B)
    (after : r.seen ≤ t.span.start) : (r.feed t).Placed B := by
  unfold feed
  split
  · rename_i s mode
    obtain ⟨p, placedSearch, stop⟩ := placed.searching s mode
    exact placed_pursue placed placedSearch good (Nat.le_trans stop after)
  · rename_i c mode
    obtain ⟨last, placedConfig⟩ := placed.reading c mode
    split
    · rename_i c' taken
      refine ⟨good.stop, placed.errors, ?_, nofun⟩
      rintro c'' ⟨⟩
      exact ⟨rfl, Config.step?_placed placedConfig good after taken⟩
    · have settled := Config.placed_settle placedConfig (some (.of t.token))
      have next : ∀ n ∈ some t.span.start, B n ∧ r.seen ≤ n := by
        rintro n ⟨⟩
        exact ⟨good.start, after⟩
      rw [last]
      exact placed_pursue placed (placed_search settled placed.seen good next) good
        (stop_search_le after)

theorem seen_feed (r : Reader) (t : Located) : (r.feed t).seen = t.span.stop := by
  unfold feed
  split
  · exact (allErrors_pursue r _ t).2
  · split
    · rfl
    · exact (allErrors_pursue r _ t).2

theorem placed_foldl (placed : r.Placed B) {ts : List Located} (ordered : Ordered r.seen ts)
    (good : ∀ t ∈ ts, t.span.Good B) : (ts.foldl feed r).Placed B := by
  induction ts generalizing r with
  | nil => exact placed
  | cons t ts ih =>
      obtain ⟨pairs, bounds⟩ := ordered
      obtain ⟨before, pairs⟩ := List.pairwise_cons.1 pairs
      obtain ⟨here, good⟩ := List.forall_mem_cons.1 good
      refine ih (placed_feed placed here (bounds t List.mem_cons_self).1) ⟨pairs, ?_⟩ good
      intro t' member
      rw [seen_feed]
      exact ⟨before t' member, (bounds t' (List.mem_cons_of_mem t member)).2⟩

theorem placed_concludeSearch (placed : r.Placed B) {s : Search} (placedSearch : s.Placed B p) :
    (∀ x ∈ (r.concludeSearch s).statements, x.Placed B) ∧
      ∀ e ∈ (r.concludeSearch s).errors, e.span.Good B := by
  refine ⟨?_, fun e member => ?_⟩
  · unfold concludeSearch
    split
    · rename_i done
      exact Search.placed_conclude? placedSearch done
    · exact List.forall_mem_nil _
  · rw [errors_concludeSearch, List.mem_reverse] at member
    rcases List.mem_cons.1 member with rfl | member
    · exact placedSearch.error
    · exact placed.errors e member

theorem placed_finish (placed : r.Placed B) :
    (∀ s ∈ r.finish.statements, s.Placed B) ∧ ∀ e ∈ r.finish.errors, e.span.Good B := by
  unfold finish
  split
  · rename_i s mode
    obtain ⟨p, placedSearch, -⟩ := placed.searching s mode
    exact placed_concludeSearch placed placedSearch
  · rename_i c mode
    obtain ⟨last, placedConfig⟩ := placed.reading c mode
    split
    · rename_i statements done
      refine ⟨Config.finish?_placed placedConfig done, fun e member => placed.errors e ?_⟩
      rwa [Outcome.errors, Option.toList_none, List.append_nil, List.mem_reverse] at member
    · have settled := Config.placed_settle placedConfig none
      have next : ∀ n ∈ (none : Option Nat), B n ∧ r.seen ≤ n := by
        rintro n ⟨⟩
      rw [last]
      exact placed_concludeSearch placed
        (placed_search settled placed.seen (.point placed.seen) next)

/-- Whatever tokens are read, the ranges of the statements and of the errors go forward. -/
theorem read_placed {ts : List Located} (zero : B 0) (ordered : Ordered 0 ts)
    (good : ∀ t ∈ ts, t.span.Good B) :
    (∀ s ∈ (read ts).statements, s.Placed B) ∧ ∀ e ∈ (read ts).errors, e.span.Good B := by
  have start : Reader.start.Placed B := by
    refine ⟨zero, nofun, ?_, nofun⟩
    rintro c ⟨⟩
    exact ⟨rfl, nofun, trivial⟩
  exact placed_finish (placed_foldl start ordered good)

end Reader

end Syntax

end ScriptLang
