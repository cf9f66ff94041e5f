/-
# ScriptLang.Proofs.Derived -- what is read without an error is derived

A configuration keeps what has been read as unfinished trees.  `Config.Reads` says
which tokens they stand for: every finished part has a derivation, and the
unfinished ones lack only what is to the right of the gap.

Completing what the next token shows to be complete changes no tokens, and taking
a token adds it at the end (`Config.reads_step?`).  So where a text may end, the
statements have a derivation from all the tokens (`Config.derives_finish?`).
-/
import ScriptLang.Proofs.Whole

namespace ScriptLang.Syntax

set_option autoImplicit false

/-! ## The tokens of unfinished parts -/

/-- The tokens of a clause before its expression. -/
inductive Clause.Reads : Clause → List Located → Prop
  | statement : Clause.Reads .statement []
  | varInit (keyword : Span) (mutable : Option Span) (w : Word) (ty : Option (Span × Word))
      (eq : Span) :
      Clause.Reads (.varInit keyword mutable.isSome w.name (ty.map (·.2.name)))
        (keywordAt .varKw keyword ::
          (mutTokens mutable ++ w.token :: (typeTokens ty ++ [markAt .eq eq])))
  | ifTest (keyword : Span) : Clause.Reads (.ifTest keyword) [keywordAt .ifKw keyword]
  | whileTest (keyword : Span) : Clause.Reads (.whileTest keyword) [keywordAt .whileKw keyword]
  | doTest (keyword keyword' : Span) {body : Block} {ts : List Located} :
      Derives .block ts body →
      Clause.Reads (.doTest keyword body)
        (keywordAt .doKw keyword :: (ts ++ [keywordAt .whileKw keyword']))
  | forLower (keyword : Span) (mutable : Option Span) (w : Word) (eq : Span) :
      Clause.Reads (.forLower keyword mutable.isSome w.name)
        (keywordAt .forKw keyword :: (mutTokens mutable ++ [w.token, markAt .eq eq]))
  | forUpper (keyword : Span) (mutable : Option Span) (w : Word) (eq till : Span) {lower : Expr}
      {ts : List Located} :
      Derives .expression ts lower →
      Clause.Reads (.forUpper keyword mutable.isSome w.name lower)
        (keywordAt .forKw keyword ::
          (mutTokens mutable ++ w.token :: markAt .eq eq :: (ts ++ [keywordAt .toKw till])))

/-- The tokens of a statement before the brace of its block. -/
inductive Owner.Reads : Owner → List Located → Prop
  | plain : Owner.Reads .plain []
  | thenPart (keyword : Span) {test : Expr} {ts : List Located} :
      Derives .expression ts test →
      Owner.Reads (.thenPart keyword test) (keywordAt .ifKw keyword :: ts)
  | elsePart (keyword keyword' : Span) {test : Expr} {yes : Block} {ts us : List Located} :
      Derives .expression ts test → Derives .block us yes →
      Owner.Reads (.elsePart keyword test yes)
        (keywordAt .ifKw keyword :: (ts ++ us ++ [keywordAt .elseKw keyword']))
  | whileTrue (keyword : Span) :
      Owner.Reads (.whileBody keyword none) [keywordAt .whileKw keyword]
  | whileTest (keyword : Span) {test : Expr} {ts : List Located} :
      Derives .expression ts test →
      Owner.Reads (.whileBody keyword (some test)) (keywordAt .whileKw keyword :: ts)
  | doBody (keyword : Span) : Owner.Reads (.doBody keyword) [keywordAt .doKw keyword]
  | forBody (keyword : Span) (mutable : Option Span) (w : Word) (eq till : Span) {lower upper : Expr}
      {ts us : List Located} :
      Derives .expression ts lower → Derives .expression us upper →
      Owner.Reads (.forBody keyword mutable.isSome w.name lower upper)
        (keywordAt .forKw keyword ::
          (mutTokens mutable ++ w.token :: markAt .eq eq :: (ts ++ keywordAt .toKw till :: us)))

/-- The tokens before the statements of the innermost list. -/
inductive Listing.Opens : Listing → List Located → Prop
  | program (done : List Stmt) : Listing.Opens (.program done) []
  | block {outer : Listing} {owner : Owner} (opening : Span) (done : List Stmt)
      {ts us vs : List Located} :
      outer.Opens ts → Derives .closedList us outer.done.reverse → owner.Reads vs →
      Listing.Opens (.block outer owner opening done) (ts ++ us ++ vs ++ [markAt .lbrace opening])

/-- The tokens of a list and of the lists around it, where the next statement may start. -/
def Listing.Reads (list : Listing) (ts : List Located) : Prop :=
  ∃ us vs, list.Opens us ∧ Derives .closedList vs list.done.reverse ∧ us ++ vs = ts

/-- How tightly an operator has to bind to be part of what fills a gap; zero is for gaps that a
whole expression fills. -/
def Gap.level : Gap → Nat
  | .unary _ op _ => if op.isStep then 13 else 12
  | .binary _ _ op _ => op.tier + 1
  | _ => 0

/-- Whether tokens are derived as what fills a gap of a level. -/
def Fills : Nat → List Located → Expr → Prop
  | 0 => Derives .expression
  | n + 1 => Derives (.operand (n + 1))

/-- The tokens before a gap. -/
inductive Gap.Reads : Gap → List Located → Prop
  | clause {list : Listing} {part : Clause} {ts us : List Located} :
      list.Reads ts → part.Reads us → Gap.Reads (.clause list part) (ts ++ us)
  | paren {outer : Gap} {ts : List Located} (opening : Span) :
      outer.Reads ts → Gap.Reads (.paren outer opening) (ts ++ [markAt .lparen opening])
  | callBare {outer : Gap} {ts : List Located} (callee : Word) (opening : Span) :
      outer.Reads ts →
      Gap.Reads (.call outer callee.name []) (ts ++ [callee.token, markAt .lparen opening])
  | call {outer : Gap} {ts us : List Located} {args : List Expr} (callee : Word)
      (opening comma : Span) :
      outer.Reads ts → Derives .arguments us args.reverse →
      Gap.Reads (.call outer callee.name args)
        (ts ++ callee.token :: markAt .lparen opening :: (us ++ [markAt .comma comma]))
  | assign {outer : Gap} {ts : List Located} (target : Word) (eq : Span) :
      outer.Reads ts → outer.level = 0 →
      Gap.Reads (.assign outer target.name) (ts ++ [target.token, markAt .eq eq])
  | compound {outer : Gap} {ts : List Located} (target : Word) {m : Mark} {op : BinaryOp}
      (opSpan : Span) :
      outer.Reads ts → outer.level = 0 → (m, op) ∈ compoundMarks →
      Gap.Reads (.compound outer target.name op opSpan) (ts ++ [target.token, markAt m opSpan])
  | unary {outer : Gap} {ts : List Located} {m : Mark} {op : UnaryOp} (opSpan : Span) :
      outer.Reads ts → outer.level ≤ 12 → (m, op) ∈ prefixMarks →
      Gap.Reads (.unary outer op opSpan) (ts ++ [markAt m opSpan])
  | step {outer : Gap} {ts : List Located} {m : Mark} {op : UnaryOp} (opSpan : Span) :
      outer.Reads ts → outer.level ≤ 13 → (m, op) ∈ stepMarks →
      Gap.Reads (.unary outer op opSpan) (ts ++ [markAt m opSpan])
  | binary {outer : Gap} {ts us : List Located} {left : Expr} {m : Mark} {op : BinaryOp}
      (opSpan : Span) :
      outer.Reads ts → outer.level ≤ op.tier → Derives (.operand op.tier) us left →
      (m, op) ∈ binaryMarks op.tier →
      Gap.Reads (.binary outer left op opSpan) (ts ++ us ++ [markAt m opSpan])

/-- The tokens that have been read.  An operand that has just been read is one without operators. -/
inductive Config.Reads : Config → List Located → Prop
  | due {gap : Gap} {ts : List Located} : gap.Reads ts → Config.Reads (.due gap) ts
  | operand {gap : Gap} {e : Expr} (inside : Option Fallback) {ts us : List Located} :
      gap.Reads ts → Derives (.operand 14) us e → Config.Reads (.operand gap e inside) (ts ++ us)
  | whole {gap : Gap} {e : Expr} {ts us : List Located} :
      gap.Reads ts → Derives .expression us e → Config.Reads (.whole gap e) (ts ++ us)
  | listed {list : Listing} {ts us : List Located} :
      list.Opens ts → Derives .statements us list.done.reverse →
      Config.Reads (.listed list) (ts ++ us)
  | varStart {list : Listing} (keyword : Span) {ts : List Located} :
      list.Reads ts → Config.Reads (.varStart list keyword) (ts ++ [keywordAt .varKw keyword])
  | varMut {list : Listing} (keyword mutable : Span) {ts : List Located} :
      list.Reads ts →
      Config.Reads (.varMut list keyword)
        (ts ++ [keywordAt .varKw keyword, keywordAt .mutKw mutable])
  | varNamed {list : Listing} (keyword : Span) (mutable : Option Span) (w : Word)
      {ts : List Located} :
      list.Reads ts →
      Config.Reads (.varNamed list keyword mutable.isSome w.name)
        (ts ++ keywordAt .varKw keyword :: (mutTokens mutable ++ [w.token]))
  | varColon {list : Listing} (keyword : Span) (mutable : Option Span) (w : Word) (colon : Span)
      {ts : List Located} :
      list.Reads ts →
      Config.Reads (.varColon list keyword mutable.isSome w.name)
        (ts ++ keywordAt .varKw keyword :: (mutTokens mutable ++ [w.token, markAt .colon colon]))
  | varTyped {list : Listing} (keyword : Span) (mutable : Option Span) (w : Word) (colon : Span)
      (ty : Word) {ts : List Located} :
      list.Reads ts →
      Config.Reads (.varTyped list keyword mutable.isSome w.name ty.name)
        (ts ++ keywordAt .varKw keyword ::
          (mutTokens mutable ++ [w.token, markAt .colon colon, ty.token]))
  | forStart {list : Listing} (keyword : Span) {ts : List Located} :
      list.Reads ts → Config.Reads (.forStart list keyword) (ts ++ [keywordAt .forKw keyword])
  | forMut {list : Listing} (keyword mutable : Span) {ts : List Located} :
      list.Reads ts →
      Config.Reads (.forMut list keyword)
        (ts ++ [keywordAt .forKw keyword, keywordAt .mutKw mutable])
  | forNamed {list : Listing} (keyword : Span) (mutable : Option Span) (w : Word)
      {ts : List Located} :
      list.Reads ts →
      Config.Reads (.forNamed list keyword mutable.isSome w.name)
        (ts ++ keywordAt .forKw keyword :: (mutTokens mutable ++ [w.token]))
  | doStart {list : Listing} (keyword : Span) {ts : List Located} :
      list.Reads ts → Config.Reads (.doStart list keyword) (ts ++ [keywordAt .doKw keyword])
  | doDone {list : Listing} (keyword : Span) {body : Block} {ts us : List Located} :
      list.Reads ts → Derives .block us body →
      Config.Reads (.doDone list keyword body) (ts ++ keywordAt .doKw keyword :: us)
  | thenDone {list : Listing} (keyword : Span) {test : Expr} {yes : Block} {ts us vs : List Located} :
      list.Reads ts → Derives .expression us test → Derives .block vs yes →
      Config.Reads (.thenDone list keyword test yes) (ts ++ keywordAt .ifKw keyword :: (us ++ vs))
  | elseStart {list : Listing} (keyword keyword' : Span) {test : Expr} {yes : Block}
      {ts us vs : List Located} :
      list.Reads ts → Derives .expression us test → Derives .block vs yes →
      Config.Reads (.elseStart list keyword test yes)
        (ts ++ keywordAt .ifKw keyword :: (us ++ vs ++ [keywordAt .elseKw keyword']))

/-! ## Lists and clauses -/

@[simp] theorem Listing.done_push (list : Listing) (s : Stmt) : (list.push s).done = s :: list.done := by
  cases list <;> rfl

theorem Listing.Opens.push {list : Listing} {ts : List Located} (opens : list.Opens ts) (s : Stmt) :
    (list.push s).Opens ts := by
  cases opens with
  | program done => exact .program _
  | block opening done outer derived owner => exact .block opening _ outer derived owner

/-- A closed statement goes on with a list. -/
theorem Listing.Reads.push {list : Listing} {ts us : List Located} {s : Stmt} (reads : list.Reads ts)
    (derived : Derives .closedStmt us s) : (list.push s).Reads (ts ++ us) := by
  obtain ⟨before, inside, opens, ⟨body, rfl, tree⟩, rfl⟩ := reads
  obtain ⟨next, rfl, rfl⟩ := derived
  refine ⟨before, _, opens.push _, ⟨.append body next, rfl, ?_⟩, ?_⟩
  · rw [Derivation.tree, tree, Listing.done_push, List.reverse_cons]
  · rw [Derivation.tokens, List.append_assoc]

/-- An open statement completes a list. -/
theorem Listing.Reads.listed {list : Listing} {ts us : List Located} {s : Stmt}
    (reads : list.Reads ts) (derived : Derives .openStmt us s) :
    (Config.listed (list.push s)).Reads (ts ++ us) := by
  obtain ⟨before, inside, opens, ⟨body, rfl, tree⟩, rfl⟩ := reads
  obtain ⟨last, rfl, rfl⟩ := derived
  rw [List.append_assoc]
  refine .listed (opens.push _) ⟨.openLast body last, rfl, ?_⟩
  rw [Derivation.tree, tree, Listing.done_push, List.reverse_cons]

/-- A list may end after a closed statement. -/
theorem Listing.Reads.listedAll {list : Listing} {ts : List Located} (reads : list.Reads ts) :
    (Config.listed list).Reads ts := by
  obtain ⟨before, inside, opens, ⟨body, rfl, tree⟩, rfl⟩ := reads
  exact .listed opens ⟨.closedOnly body, rfl, tree⟩

/-- A clause and its expression are an open statement, if they complete one. -/
theorem Clause.Reads.complete {part : Clause} {ts us : List Located} {e : Expr} {s : Stmt}
    (reads : part.Reads ts) (derived : Derives .expression us e) (done : part.complete? e = some s) :
    Derives .openStmt (ts ++ us) s := by
  obtain ⟨d, rfl, rfl⟩ := derived
  cases reads with
  | statement =>
      cases done
      exact ⟨.expr d, rfl, rfl⟩
  | varInit keyword mutable w ty eq =>
      cases done
      exact ⟨.var keyword mutable w ty eq d, by simp [Derivation.tokens], rfl⟩
  | doTest keyword keyword' block =>
      obtain ⟨body, rfl, rfl⟩ := block
      cases done
      exact ⟨.doWhile keyword body keyword' d, by simp [Derivation.tokens], rfl⟩
  | ifTest keyword => cases done
  | whileTest keyword => cases done
  | forLower keyword mutable w eq => cases done
  | forUpper keyword mutable w eq till lower => cases done

/-! ## Gaps -/

theorem Gap.level_le (gap : Gap) : gap.level ≤ 13 := by
  unfold level
  split
  · split <;> decide
  · rename_i op _
    have bounds := tier_bounds op
    omega
  · decide

theorem Gap.level_of_takesExpression {gap : Gap} (takes : gap.takesExpression = true) :
    gap.level = 0 := by
  cases gap <;> first | rfl | cases takes

/-- What binds tightly enough fills a gap. -/
theorem Derives.fills {n level : Nat} (le : level ≤ n) (pos : 1 ≤ n) {ts : List Located} {e : Expr}
    (derived : Derives (.operand n) ts e) : Fills level ts e := by
  cases level with
  | zero => exact derived.expression pos
  | succ level => exact derived.loosen le

theorem Derives.fillsWhole {level : Nat} (whole : level = 0) {ts : List Located} {e : Expr}
    (derived : Derives .expression ts e) : Fills level ts e := by
  rw [whole]
  exact derived

theorem derives_unary {m : Mark} {op : UnaryOp} (listed : (m, op) ∈ prefixMarks) (opSpan : Span)
    {ts : List Located} {e : Expr} (derived : Derives (.operand 12) ts e) :
    Derives (.operand 12) (markAt m opSpan :: ts) (.unary (opSpan.through e.span) op opSpan e) := by
  obtain ⟨d, rfl, rfl⟩ := derived
  exact ⟨.unary m op listed opSpan d, rfl, rfl⟩

theorem derives_step {m : Mark} {op : UnaryOp} (listed : (m, op) ∈ stepMarks) (opSpan : Span)
    {ts : List Located} {e : Expr} (derived : Derives (.operand 13) ts e) :
    Derives (.operand 13) (markAt m opSpan :: ts) (.unary (opSpan.through e.span) op opSpan e) := by
  obtain ⟨d, rfl, rfl⟩ := derived
  exact ⟨.step m op listed opSpan d, rfl, rfl⟩

theorem derives_binary {level : Nat} {m : Mark} {op : BinaryOp}
    (listed : (m, op) ∈ binaryMarks level) (opSpan : Span) {ts us : List Located} {l r : Expr}
    (left : Derives (.operand level) ts l) (right : Derives (.operand (level + 1)) us r) :
    Derives (.operand level) (ts ++ markAt m opSpan :: us)
      (.binary (l.span.through r.span) l op opSpan r) := by
  obtain ⟨dl, rfl, rfl⟩ := left
  obtain ⟨dr, rfl, rfl⟩ := right
  exact ⟨.binary dl m op listed opSpan dr, rfl, rfl⟩

theorem derives_assign (target : Word) (eq : Span) {ts : List Located} {e : Expr}
    (derived : Derives .expression ts e) :
    Derives .expression (target.token :: markAt .eq eq :: ts)
      (.assign (target.name.span.through e.span) target.name e) := by
  obtain ⟨d, rfl, rfl⟩ := derived
  exact ⟨.assign target eq d, rfl, rfl⟩

theorem derives_compound (target : Word) {m : Mark} {op : BinaryOp}
    (listed : (m, op) ∈ compoundMarks) (opSpan : Span) {ts : List Located} {e : Expr}
    (derived : Derives .expression ts e) :
    Derives .expression (target.token :: markAt m opSpan :: ts)
      (Gap.compoundExpr target.name op opSpan e) := by
  obtain ⟨d, rfl, rfl⟩ := derived
  exact ⟨.compound target m op listed opSpan d, rfl, rfl⟩

/-- Operators and assignments that take their operands keep the tokens. -/
theorem Gap.Reads.close {gap : Gap} {ts us : List Located} {e : Expr} (reads : gap.Reads ts)
    (fills : Fills gap.level us e) :
    ∃ ts' us', (gap.close e).1.Reads ts' ∧ Derives .expression us' (gap.close e).2 ∧
      ts' ++ us' = ts ++ us := by
  fun_induction Gap.close gap e generalizing ts us with
  | case1 outer op opSpan e ih =>
      cases reads with
      | @unary _ ts m _ _ reads low listed =>
          rw [Gap.level, (mem_prefixMarks.1 listed).2] at fills
          have derived := (derives_unary listed opSpan fills).fills low (by decide)
          obtain ⟨ts', us', reads', derived', same⟩ := ih reads derived
          exact ⟨ts', us', reads', derived', by simpa using same⟩
      | @step _ ts m _ _ reads low listed =>
          rw [Gap.level, (mem_stepMarks.1 listed).2] at fills
          have derived := (derives_step listed opSpan fills).fills low (by decide)
          obtain ⟨ts', us', reads', derived', same⟩ := ih reads derived
          exact ⟨ts', us', reads', derived', by simpa using same⟩
  | case2 outer left op opSpan e ih =>
      cases reads with
      | @binary _ ts vs _ m _ _ reads low derivedLeft listed =>
          have derived := (derives_binary listed opSpan derivedLeft fills).fills low (tier_bounds op).1
          obtain ⟨ts', us', reads', derived', same⟩ := ih reads derived
          exact ⟨ts', us', reads', derived', by simpa using same⟩
  | case3 outer target e ih =>
      cases reads with
      | @assign _ ts target eq reads level =>
          have derived := (derives_assign target eq fills).fillsWhole level
          obtain ⟨ts', us', reads', derived', same⟩ := ih reads derived
          exact ⟨ts', us', reads', derived', by simpa using same⟩
  | case4 outer target op opSpan e ih =>
      cases reads with
      | @compound _ ts target m _ _ reads level listed =>
          have derived := (derives_compound target listed opSpan fills).fillsWhole level
          obtain ⟨ts', us', reads', derived', same⟩ := ih reads derived
          exact ⟨ts', us', reads', derived', by simpa using same⟩
  | case5 gap e notUnary notBinary notAssign notCompound =>
      refine ⟨ts, us, reads, ?_, rfl⟩
      cases gap with
      | unary outer op opSpan => exact (notUnary _ _ _ rfl).elim
      | binary outer left op opSpan => exact (notBinary _ _ _ _ rfl).elim
      | assign outer target => exact fills
      | compound outer target op opSpan => exact fills
      | clause list part => exact fills
      | paren outer opening => exact fills
      | call outer callee args => exact fills

/-- Operators that bind at least as tightly as a tier take their operands, and the tokens stay. -/
theorem Gap.Reads.absorb {tier n : Nat} (low : 1 ≤ tier) (high : tier ≤ 11) {gap : Gap}
    {ts us : List Located} {e : Expr} (reads : gap.Reads ts) (derived : Derives (.operand n) us e)
    (level : gap.level ≤ n) (le : tier ≤ n) :
    ∃ ts' us', (gap.absorb tier e).1.Reads ts' ∧ Derives (.operand tier) us' (gap.absorb tier e).2 ∧
      (gap.absorb tier e).1.level ≤ tier ∧ ts' ++ us' = ts ++ us := by
  fun_induction Gap.absorb tier gap e generalizing ts us n with
  | case1 outer op opSpan e ih =>
      cases reads with
      | @unary _ ts m _ _ reads low listed =>
          rw [Gap.level, (mem_prefixMarks.1 listed).2] at level
          have derived := derives_unary listed opSpan (derived.loosen level)
          obtain ⟨ts', us', reads', derived', level', same⟩ := ih reads derived low (by omega)
          exact ⟨ts', us', reads', derived', level', by simpa using same⟩
      | @step _ ts m _ _ reads low listed =>
          rw [Gap.level, (mem_stepMarks.1 listed).2] at level
          have derived := derives_step listed opSpan (derived.loosen level)
          obtain ⟨ts', us', reads', derived', level', same⟩ := ih reads derived low (by omega)
          exact ⟨ts', us', reads', derived', level', by simpa using same⟩
  | case2 outer left op opSpan e tight ih =>
      cases reads with
      | @binary _ ts vs _ m _ _ reads low derivedLeft listed =>
          have derived := derives_binary listed opSpan derivedLeft (derived.loosen level)
          obtain ⟨ts', us', reads', derived', level', same⟩ := ih reads derived low tight
          exact ⟨ts', us', reads', derived', level', by simpa using same⟩
  | case3 outer left op opSpan e loose =>
      refine ⟨ts, us, reads, derived.loosen le, ?_, rfl⟩
      show op.tier + 1 ≤ tier
      omega
  | case4 gap e notUnary notBinary =>
      refine ⟨ts, us, reads, derived.loosen le, ?_, rfl⟩
      cases gap with
      | unary outer op opSpan => exact (notUnary _ _ _ rfl).elim
      | binary outer left op opSpan => exact (notBinary _ _ _ _ rfl).elim
      | _ => exact Nat.zero_le _

/-- The arguments of a call after one more. -/
theorem Gap.Reads.arguments {outer : Gap} {callee : Name} {args : List Expr} {ts us : List Located}
    {e : Expr} (reads : (Gap.call outer callee args).Reads ts) (derived : Derives .expression us e) :
    ∃ (w : Word) (opening : Span) (ts' us' : List Located), outer.Reads ts' ∧ w.name = callee ∧
      Derives .arguments us' (e :: args).reverse ∧
      ts' ++ w.token :: markAt .lparen opening :: us' = ts ++ us := by
  obtain ⟨d, rfl, rfl⟩ := derived
  cases reads with
  | @callBare _ ts w opening reads =>
      exact ⟨w, opening, ts, d.tokens, reads, rfl, ⟨.one d, rfl, rfl⟩, by simp⟩
  | @call _ ts us _ w opening comma reads derived =>
      obtain ⟨a, rfl, tree⟩ := derived
      refine ⟨w, opening, ts, _, reads, rfl, ⟨.another a comma d, rfl, ?_⟩, ?_⟩
      · rw [Derivation.tree, tree, List.reverse_cons]
      · simp [Derivation.tokens]

theorem Derivation.arguments_ne_nil (d : Derivation .arguments) : d.tree ≠ [] := by
  cases d <;> simp [Derivation.tree]

/-- A name by itself is one token. -/
theorem Derivation.tokens_of_name {p : Phrase} (d : Derivation p) {n : Nat} (same : p = .operand n)
    {name : Name} (tree : (same ▸ d).tree = .name name) :
    ∃ w : Word, w.name = name ∧ d.tokens = [w.token] := by
  induction d generalizing n with
  | tighter loose e ih =>
      cases same
      exact ih rfl tree
  | name w =>
      cases same
      cases tree
      exact ⟨w, rfl, rfl⟩
  | _ => cases same <;> cases tree

/-! ## Configurations -/

namespace Config

theorem reads_afterStatement {list : Listing} {ts : List Located} (reads : list.Reads ts)
    (next : Option Terminal) : (afterStatement list next).Reads ts := by
  rcases afterStatement_cases list next with ⟨-, same⟩ | same
  · rw [same]
    exact reads.listedAll
  · rw [same, ← List.append_nil ts]
    exact .due (.clause reads .statement)

theorem reads_afterExpression {gap : Gap} {e : Expr} {ts us : List Located} (reads : gap.Reads ts)
    (derived : Derives .expression us e) (next : Option Terminal) :
    (afterExpression gap e next).Reads (ts ++ us) := by
  rcases afterExpression_cases gap e next with ⟨list, part, s, rfl, done, -, same⟩ | same
  · rw [same]
    cases reads with
    | clause readsList readsPart =>
        rw [List.append_assoc]
        exact readsList.listed (readsPart.complete derived done)
  · rw [same]
    exact .whole reads derived

/-- Whether an operand has been read. -/
def isOperand : Config → Bool
  | .operand .. => true
  | _ => false

/-- Completing what is complete keeps the tokens.  The case of an operator after an operand is that
of `reads_operator`. -/
theorem reads_settle {c : Config} {ts : List Located} (reads : c.Reads ts) (next : Option Terminal)
    (noOperator : c.isOperand = true → next.bind Terminal.binaryOp? = none) :
    (c.settle next).Reads ts := by
  fun_cases settle next c with
  | case1 gap e inside op found => rw [noOperator rfl] at found; cases found
  | case2 gap e inside found closes filled =>
      cases reads with
      | operand _ reads derived =>
          have fills := derived.fills (Nat.le_succ_of_le gap.level_le) (by decide)
          obtain ⟨ts', us', reads', derived', same⟩ := reads.close fills
          rw [← same]
          exact reads_afterExpression reads' derived' next
  | case3 gap e inside found stays => exact reads
  | case4 gap e =>
      cases reads with
      | whole reads derived => exact reads_afterExpression reads derived next
  | case5 list =>
      cases reads with
      | due reads =>
          cases reads with
          | clause reads part =>
              cases part
              rw [List.append_nil]
              exact reads_afterStatement reads next
  | case6 list keyword test yes ends =>
      cases reads with
      | thenDone _ reads derivedTest derivedYes =>
          obtain ⟨d, rfl, rfl⟩ := derivedTest
          obtain ⟨b, rfl, rfl⟩ := derivedYes
          exact reads_afterStatement (reads.push ⟨.ifThen keyword d b, rfl, rfl⟩) next
  | case7 list keyword test yes stays => exact reads
  | case8 => exact reads

theorem reads_openBlock {list : Listing} {owner : Owner} {ts us : List Located}
    (reads : list.Reads ts) (readsOwner : owner.Reads us) (brace : Span) :
    (openBlock list owner brace).Reads (ts ++ us ++ [markAt .lbrace brace]) := by
  obtain ⟨before, inside, opens, derived, rfl⟩ := reads
  have opened : (Listing.block list owner brace []).Reads
      (before ++ inside ++ us ++ [markAt .lbrace brace]) :=
    ⟨_, [], .block brace [] opens derived readsOwner, ⟨.nothing, rfl, rfl⟩, List.append_nil _⟩
  have due := Config.Reads.due (.clause opened .statement)
  rwa [List.append_nil] at due

theorem reads_next {list : Listing} {s : Stmt} {ts us : List Located} (reads : list.Reads ts)
    (derived : Derives .closedStmt us s) : (next list s).Reads (ts ++ us) := by
  have due := Config.Reads.due (.clause (reads.push derived) .statement)
  rwa [List.append_nil] at due

theorem reads_closeBlock {list : Listing} {owner : Owner} {block : Block} {ts us vs : List Located}
    (reads : list.Reads ts) (readsOwner : owner.Reads us) (derived : Derives .block vs block) :
    (closeBlock list owner block).Reads (ts ++ us ++ vs) := by
  obtain ⟨b, rfl, rfl⟩ := derived
  cases readsOwner with
  | plain =>
      rw [List.append_nil]
      exact reads_next reads ⟨.block b, rfl, rfl⟩
  | thenPart keyword test =>
      rw [List.append_assoc]
      exact .thenDone keyword reads test ⟨b, rfl, rfl⟩
  | elsePart keyword keyword' test yes =>
      obtain ⟨d, rfl, rfl⟩ := test
      obtain ⟨y, rfl, rfl⟩ := yes
      rw [List.append_assoc]
      exact reads_next reads ⟨.ifElse keyword d y keyword' b, by simp [Derivation.tokens], rfl⟩
  | whileTrue keyword =>
      rw [List.append_assoc]
      exact reads_next reads ⟨.whileTrue keyword b, rfl, rfl⟩
  | whileTest keyword test =>
      obtain ⟨d, rfl, rfl⟩ := test
      rw [List.append_assoc]
      exact reads_next reads ⟨.whileTest keyword d b, rfl, rfl⟩
  | doBody keyword =>
      rw [List.append_assoc]
      exact .doDone keyword reads ⟨b, rfl, rfl⟩
  | forBody keyword mutable w eq till lower upper =>
      obtain ⟨l, rfl, rfl⟩ := lower
      obtain ⟨u, rfl, rfl⟩ := upper
      rw [List.append_assoc]
      exact reads_next reads
        ⟨.forTo keyword mutable w eq l till u b, by simp [Derivation.tokens], rfl⟩

/-- An operand that starts with an operator that is no step starts at the level of one. -/
theorem Gap.level_le_of_allowed {gap : Gap} {op : UnaryOp} (steps : op.isStep = false)
    (allowed : gap.isStep = true → op.isStep = true) : gap.level ≤ 12 := by
  have noStep : gap.isStep = false := by
    rw [← Bool.not_eq_true]
    intro step
    rw [allowed step] at steps
    cases steps
  cases gap with
  | unary outer op' opSpan =>
      rw [Gap.isStep] at noStep
      rw [Gap.level, noStep]
      exact Nat.le_refl 12
  | binary outer left op' opSpan => exact Nat.succ_le_succ (tier_bounds op').2
  | _ => exact Nat.zero_le _

/-- Where an operand is due, a token starts what is derived from it. -/
theorem reads_dueShifts {gap : Gap} {span : Span} {t : Token} {c : Config} {ts : List Located}
    (reads : gap.Reads ts) (shifts : DueShifts span gap t c) : c.Reads (ts ++ [⟨t, span⟩]) := by
  -- where a statement is due, nothing of it has been read
  have due {list : Listing} {us : List Located} (reads : (Gap.clause list .statement).Reads us) :
      list.Reads us := by
    cases reads with
    | clause reads part =>
        cases part
        rwa [List.append_nil]
  cases shifts with
  | literal gap value => exact .operand _ reads ⟨.literal value span, rfl, rfl⟩
  | name gap text => exact .operand _ reads ⟨.name ⟨text, span⟩, rfl, rfl⟩
  | varStart list => exact .varStart span (due reads)
  | ifTest list => exact .due (.clause (due reads) (.ifTest span))
  | whileTest list => exact .due (.clause (due reads) (.whileTest span))
  | doStart list => exact .doStart span (due reads)
  | forStart list => exact .forStart span (due reads)
  | @unary gap m op found allowed =>
      cases steps : op.isStep with
      | true => exact .due (.step span reads gap.level_le (mem_stepMarks.2 ⟨found, steps⟩))
      | false =>
          have low := Gap.level_le_of_allowed steps allowed
          exact .due (.unary span reads low (mem_prefixMarks.2 ⟨found, steps⟩))
  | paren gap => exact .due (.paren span reads)
  | block list => simpa [markAt] using reads_openBlock (due reads) .plain span
  | whileTrue list keyword =>
      cases reads with
      | clause reads part =>
          cases part
          exact reads_openBlock reads (.whileTrue keyword) span
  | callBare outer callee =>
      cases reads with
      | callBare w opening reads =>
          rw [List.append_assoc]
          exact .operand _ reads ⟨.callBare w opening span, rfl, rfl⟩
      | call w opening comma reads derived =>
          obtain ⟨d, -, tree⟩ := derived
          exact absurd tree d.arguments_ne_nil

theorem reads_wholeShifts {gap : Gap} {e : Expr} {span : Span} {t : Token} {c : Config}
    {ts us : List Located} (reads : gap.Reads ts) (derived : Derives .expression us e)
    (shifts : WholeShifts span e gap t c) : c.Reads (ts ++ us ++ [⟨t, span⟩]) := by
  cases shifts with
  | thenPart list keyword =>
      cases reads with
      | clause reads part =>
          cases part
          have opened := reads_openBlock reads (.thenPart keyword derived) span
          simpa [markAt] using opened
  | whileBody list keyword =>
      cases reads with
      | clause reads part =>
          cases part
          have opened := reads_openBlock reads (.whileTest keyword derived) span
          simpa [markAt] using opened
  | forUpper list keyword mutable var =>
      cases reads with
      | clause reads part =>
          cases part with
          | forLower _ mutable w eq =>
              have upper := Gap.Reads.clause reads (.forUpper keyword mutable w eq span derived)
              have due := Config.Reads.due upper
              simpa [keywordAt] using due
  | forBody list keyword mutable var lower =>
      cases reads with
      | clause reads part =>
          cases part with
          | forUpper _ mutable w eq till derivedLower =>
              have owner := Owner.Reads.forBody keyword mutable w eq till derivedLower derived
              have opened := reads_openBlock reads owner span
              simpa [markAt] using opened
  | statement list done =>
      cases reads with
      | clause reads part =>
          obtain ⟨d, tokens, rfl⟩ := part.complete derived done
          have closed : (next list d.tree).Reads _ := reads_next reads ⟨.ended d span, rfl, rfl⟩
          rw [Derivation.tokens, tokens] at closed
          simpa [markAt] using closed
  | paren outer opening =>
      cases reads with
      | paren _ reads =>
          obtain ⟨d, rfl, rfl⟩ := derived
          have operand : (Config.operand outer (.paren (opening.through span) d.tree)
              (some ⟨.paren outer opening, some (Expr.span d.tree).start⟩)).Reads _ :=
            .operand _ reads ⟨.paren opening d span, rfl, rfl⟩
          simpa [Derivation.tokens, markAt] using operand
  | call outer callee args =>
      obtain ⟨w, opening, ts', us', readsOuter, rfl, ⟨a, rfl, tree⟩, same⟩ :=
        reads.arguments derived
      rw [← same, ← tree]
      have operand : (Config.operand outer (.call (w.name.span.through span) w.name a.tree)
          (some ⟨.call outer w.name [], some (args.getLastD e).span.start⟩)).Reads _ :=
        .operand _ readsOuter ⟨.call w opening a span, rfl, rfl⟩
      simpa [Derivation.tokens, markAt] using operand
  | argument outer callee args =>
      obtain ⟨w, opening, ts', us', readsOuter, rfl, arguments, same⟩ := reads.arguments derived
      rw [← same]
      have due := Config.Reads.due (.call w opening span readsOuter arguments)
      simpa [markAt] using due

/-- A name before an assignment or a call. -/
theorem reads_operandShifts {gap : Gap} {e : Expr} {span : Span} {m : Mark} {c : Config}
    {ts us : List Located} (reads : gap.Reads ts) (derived : Derives (.operand 14) us e)
    (noOperator : BinaryOp.ofMark? m = none) (shifts : OperandShifts span gap e m c) :
    c.Reads (ts ++ us ++ [markAt m span]) := by
  -- a name is one token
  have word {n : Name} (derived : Derives (.operand 14) us (.name n)) :
      ∃ w : Word, w.name = n ∧ us = [w.token] := by
    obtain ⟨d, rfl, tree⟩ := derived
    exact d.tokens_of_name rfl tree
  cases shifts with
  | binary e found =>
      rw [noOperator] at found
      cases found
  | call read =>
      obtain ⟨w, rfl, rfl⟩ := word derived
      have due := Config.Reads.due (.callBare w span reads)
      simpa using due
  | assign read takes =>
      obtain ⟨w, rfl, rfl⟩ := word derived
      have due := Config.Reads.due (.assign w span reads (Gap.level_of_takesExpression takes))
      simpa using due
  | compound read takes found =>
      obtain ⟨w, rfl, rfl⟩ := word derived
      have level := Gap.level_of_takesExpression takes
      have due := Config.Reads.due (.compound w span reads level (mem_compoundMarks.2 found))
      simpa using due

/-- An operator takes the operand on its left, as far as it binds tighter than those before it. -/
theorem reads_operator {gap : Gap} {e : Expr} {inside : Option Fallback} {ts : List Located}
    (reads : (Config.operand gap e inside).Reads ts) {m : Mark} {op : BinaryOp}
    (found : BinaryOp.ofMark? m = some op) (span : Span) :
    (Config.due (.binary (gap.absorb op.tier e).1 (gap.absorb op.tier e).2 op span)).Reads
      (ts ++ [markAt m span]) := by
  cases reads with
  | operand _ reads derived =>
      have bounds := tier_bounds op
      have level := Nat.le_succ_of_le gap.level_le
      have tight : op.tier ≤ 14 := by omega
      obtain ⟨ts', us', reads', derived', level', same⟩ :=
        reads.absorb bounds.1 bounds.2 derived level tight
      rw [← same]
      exact .due (.binary span reads' level' derived' (mem_binaryMarks found))

theorem isOperand_afterStatement (list : Listing) (next : Option Terminal) :
    (afterStatement list next).isOperand = false := by
  rcases afterStatement_cases list next with ⟨-, same⟩ | same <;> rw [same] <;> rfl

theorem isOperand_afterExpression (gap : Gap) (e : Expr) (next : Option Terminal) :
    (afterExpression gap e next).isOperand = false := by
  rcases afterExpression_cases gap e next with ⟨_, _, _, -, -, -, same⟩ | same <;> rw [same] <;> rfl

/-- What has settled has an operand last only if it had one before. -/
theorem isOperand_settle {c : Config} (next : Option Terminal)
    (last : (c.settle next).isOperand = true) : c.isOperand = true := by
  revert last
  fun_cases settle next c with
  | case1 gap e inside op found => exact fun _ => rfl
  | case2 gap e inside found closes filled => exact fun _ => rfl
  | case3 gap e inside found stays => exact fun _ => rfl
  | case4 gap e =>
      intro last
      rw [isOperand_afterExpression] at last
      cases last
  | case5 list =>
      intro last
      rw [isOperand_afterStatement] at last
      cases last
  | case6 list keyword test yes ends =>
      intro last
      rw [isOperand_afterStatement] at last
      cases last
  | case7 list keyword test yes stays => exact id
  | case8 => exact id

theorem reads_shifts {c c' : Config} {span : Span} {t : Token} {ts : List Located}
    (reads : c.Reads ts)
    (noOperator : c.isOperand = true → (Terminal.of t).binaryOp? = none)
    (shifts : Shifts span c t c') : c'.Reads (ts ++ [⟨t, span⟩]) := by
  cases shifts with
  | due shifts =>
      cases reads with
      | due reads => exact reads_dueShifts reads shifts
  | operand inside shifts =>
      cases reads with
      | operand _ reads derived => exact reads_operandShifts reads derived (noOperator rfl) shifts
  | whole shifts =>
      cases reads with
      | whole reads derived => exact reads_wholeShifts reads derived shifts
  | closeBlock outer owner opening done =>
      cases reads with
      | listed opens derived =>
          cases opens with
          | block _ _ opensOuter derivedOuter readsOwner =>
              obtain ⟨d, rfl, tree⟩ := derived
              have block : Derives .block _ (.mk (opening.through span) done.reverse) :=
                ⟨.braces opening d span, rfl, by rw [Derivation.tree, tree]; rfl⟩
              have closed := reads_closeBlock ⟨_, _, opensOuter, derivedOuter, rfl⟩ readsOwner block
              simpa [Derivation.tokens, markAt] using closed
  | varMut list keyword =>
      cases reads with
      | varStart _ reads => simpa [keywordAt] using Config.Reads.varMut keyword span reads
  | varName list keyword text =>
      cases reads with
      | varStart _ reads =>
          have named := Config.Reads.varNamed keyword none ⟨text, span⟩ reads
          simpa [mutTokens, Word.name, Word.token] using named
  | varMutName list keyword text =>
      cases reads with
      | varMut _ mutable reads =>
          have named := Config.Reads.varNamed keyword (some mutable) ⟨text, span⟩ reads
          simpa [mutTokens, Word.name, Word.token] using named
  | varEq list keyword mutable name =>
      cases reads with
      | varNamed _ mutable w reads =>
          have due := Config.Reads.due (.clause reads (.varInit keyword mutable w none span))
          simpa [typeTokens, markAt] using due
  | varColon list keyword mutable name =>
      cases reads with
      | varNamed _ mutable w reads =>
          have colon := Config.Reads.varColon keyword mutable w span reads
          simpa [markAt] using colon
  | varType list keyword mutable name ty =>
      cases reads with
      | varColon _ mutable w colon reads =>
          have typed := Config.Reads.varTyped keyword mutable w colon ⟨ty, span⟩ reads
          simpa [Word.name, Word.token] using typed
  | varTypedEq list keyword mutable name ty =>
      cases reads with
      | varTyped _ mutable w colon ty reads =>
          have due := Config.Reads.due
            (.clause reads (.varInit keyword mutable w (some (colon, ty)) span))
          simpa [typeTokens, markAt] using due
  | forMut list keyword =>
      cases reads with
      | forStart _ reads => simpa [keywordAt] using Config.Reads.forMut keyword span reads
  | forName list keyword text =>
      cases reads with
      | forStart _ reads =>
          have named := Config.Reads.forNamed keyword none ⟨text, span⟩ reads
          simpa [mutTokens, Word.name, Word.token] using named
  | forMutName list keyword text =>
      cases reads with
      | forMut _ mutable reads =>
          have named := Config.Reads.forNamed keyword (some mutable) ⟨text, span⟩ reads
          simpa [mutTokens, Word.name, Word.token] using named
  | forEq list keyword mutable var =>
      cases reads with
      | forNamed _ mutable w reads =>
          have due := Config.Reads.due (.clause reads (.forLower keyword mutable w span))
          simpa [markAt] using due
  | doBody list keyword =>
      cases reads with
      | doStart _ reads => exact reads_openBlock reads (.doBody keyword) span
  | doWhile list keyword body =>
      cases reads with
      | doDone _ reads derived =>
          have due := Config.Reads.due (.clause reads (.doTest keyword span derived))
          simpa [keywordAt] using due
  | elseStart list keyword test yes =>
      cases reads with
      | thenDone _ reads derivedTest derivedYes =>
          have started := Config.Reads.elseStart keyword span reads derivedTest derivedYes
          simpa [keywordAt] using started
  | elseBody list keyword test yes =>
      cases reads with
      | elseStart _ keyword' reads derivedTest derivedYes =>
          have owner := Owner.Reads.elsePart keyword keyword' derivedTest derivedYes
          have opened := reads_openBlock reads owner span
          simpa [markAt] using opened

/-- Taking a token adds it to those that have been read. -/
theorem reads_step? {c c' : Config} {t : Located} {ts : List Located} (reads : c.Reads ts)
    (taken : c.step? t = some c') : c'.Reads (ts ++ [t]) := by
  by_cases operator : c.isOperand = true ∧ (Terminal.of t.token).binaryOp? ≠ none
  · obtain ⟨last, operator⟩ := operator
    obtain ⟨op, found⟩ := Option.ne_none_iff_exists'.1 operator
    cases c with
    | operand gap e inside =>
        obtain ⟨token, span⟩ := t
        cases token with
        | mark m =>
            have found : BinaryOp.ofMark? m = some op := found
            simp only [step?, settle, Option.bind_some, Terminal.of, Terminal.binaryOp?, found, shift?,
              operandMark?, Option.some.injEq] at taken
            rw [← taken]
            exact reads_operator reads found span
        | _ => cases found
    | _ => cases last
  · have noOperator : c.isOperand = true → (Terminal.of t.token).binaryOp? = none :=
      fun last => Decidable.byContradiction fun other => operator ⟨last, other⟩
    have settled := reads_settle reads (some (.of t.token)) noOperator
    have shifts := shifts_of_shift? taken
    exact reads_shifts settled (fun last => noOperator (isOperand_settle _ last)) shifts

/-- Taking tokens adds them to those that have been read. -/
theorem reads_run? {c c' : Config} {ts us : List Located} (reads : c.Reads ts)
    (taken : c.run? us = some c') : c'.Reads (ts ++ us) := by
  induction us generalizing c ts with
  | nil =>
      cases taken
      rwa [List.append_nil]
  | cons u us ih =>
      obtain ⟨next, step, taken⟩ := Option.bind_eq_some_iff.1 taken
      rw [List.append_cons]
      exact ih (reads_step? reads step) taken

/-- Where a text may end, all its tokens are derived as the statements. -/
theorem derives_finish? {c : Config} {ts : List Located} {statements : List Stmt} (reads : c.Reads ts)
    (done : c.finish? = some statements) : Derives .statements ts statements := by
  have settled := reads_settle reads none fun _ => rfl
  rw [settle_of_finish? done] at settled
  cases settled with
  | listed opens derived =>
      cases opens
      rwa [Listing.done, List.reverse_reverse] at derived

theorem reads_start : start.Reads [] := by
  have list : (Listing.program []).Reads [] :=
    ⟨[], [], .program [], ⟨.nothing, rfl, rfl⟩, rfl⟩
  exact .due (.clause list .statement)

end Config

end ScriptLang.Syntax
