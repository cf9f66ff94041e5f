/-
# ScriptLang.Proofs.Accepted -- what is derived is read

`Derivation.Taken` says, for each phrase, what becomes of the tokens of a
derivation where the phrase may stand: all of them can be taken, and what is read
then is the tree of the derivation.

An operand that has been read need not be complete: the operators before it wait
for what follows.  What is known of it is what it comes to once they take their
operands, up to a tier (`Gap.absorb`) or all of them (`Gap.close`).
-/
import ScriptLang.Proofs.Derived

namespace ScriptLang.Syntax

set_option autoImplicit false

/-! ## First tokens -/

/-- The phrases that have a first token, and with it show that they start. -/
def Phrase.isMarked : Phrase → Bool
  | .statements | .closedList => false
  | _ => true

theorem startsStatement_of_unary {m : Mark} {op : UnaryOp} (found : UnaryOp.ofMark? m = some op) :
    (Terminal.mark m).startsStatement = true := by
  cases m <;> cases found <;> rfl

/-- A phrase starts with a token that a statement can start with. -/
theorem Derivation.starts {p : Phrase} (d : Derivation p) (marked : p.isMarked = true) :
    ∃ t ts, d.tokens = t :: ts ∧ (Terminal.of t.token).startsStatement = true := by
  induction d with
  | closedOnly | openLast | nothing | append => cases marked
  | ended s semi ih =>
      obtain ⟨t, ts, tokens, starts⟩ := ih rfl
      exact ⟨t, ts ++ [markAt .semi semi], by rw [Derivation.tokens, tokens]; rfl, starts⟩
  | binary left m op listed opSpan right ih =>
      obtain ⟨t, ts, tokens, starts⟩ := ih rfl
      exact ⟨t, ts ++ markAt m opSpan :: right.tokens,
        by rw [Derivation.tokens, tokens]; rfl, starts⟩
  | another args comma e ih =>
      obtain ⟨t, ts, tokens, starts⟩ := ih rfl
      exact ⟨t, ts ++ markAt .comma comma :: e.tokens,
        by rw [Derivation.tokens, tokens]; rfl, starts⟩
  | block body ih => exact ih rfl
  | expr e ih => exact ih rfl
  | operation e ih => exact ih rfl
  | tighter loose e ih => exact ih rfl
  | one e ih => exact ih rfl
  | unary m op listed opSpan operand =>
      exact ⟨_, _, rfl, startsStatement_of_unary (mem_prefixMarks.1 listed).1⟩
  | step m op listed opSpan operand =>
      exact ⟨_, _, rfl, startsStatement_of_unary (mem_stepMarks.1 listed).1⟩
  | literal value span =>
      cases value with
      | bool b => cases b <;> exact ⟨_, _, rfl, rfl⟩
      | _ => exact ⟨_, _, rfl, rfl⟩
  | _ => exact ⟨_, _, rfl, rfl⟩

/-! ## Steps -/

namespace Listing

/-- Add statements. -/
def pushAll (list : Listing) (ss : List Stmt) : Listing := ss.foldl (fun l s => l.push s) list

theorem pushAll_append (list : Listing) (ss : List Stmt) (s : Stmt) :
    list.pushAll (ss ++ [s]) = (list.pushAll ss).push s := by
  rw [pushAll, List.foldl_append]
  rfl

theorem pushAll_program (done ss : List Stmt) :
    (Listing.program done).pushAll ss = .program (ss.reverse ++ done) := by
  induction ss generalizing done with
  | nil => rfl
  | cons s ss ih =>
      rw [List.reverse_cons, List.append_assoc]
      exact ih (s :: done)

theorem pushAll_block (outer : Listing) (owner : Owner) (opening : Span) (done ss : List Stmt) :
    (Listing.block outer owner opening done).pushAll ss =
      .block outer owner opening (ss.reverse ++ done) := by
  induction ss generalizing done with
  | nil => rfl
  | cons s ss ih =>
      rw [List.reverse_cons, List.append_assoc]
      exact ih (s :: done)

/-- What a list ends with: a program with the text, a block with a brace. -/
def terminator : Listing → Option Terminal
  | .program _ => none
  | .block .. => some (.mark .rbrace)

@[simp] theorem terminator_push (list : Listing) (s : Stmt) :
    (list.push s).terminator = list.terminator := by
  cases list <;> rfl

@[simp] theorem terminator_pushAll (list : Listing) (ss : List Stmt) :
    (list.pushAll ss).terminator = list.terminator := by
  induction ss generalizing list with
  | nil => rfl
  | cons s ss ih => rw [pushAll, List.foldl_cons, ← terminator_push list s]; exact ih _

end Listing

namespace Config

theorem endsList_terminator (list : Listing) : endsList list.terminator = true := by
  cases list <;> rfl

theorem afterStatement_terminator (list : Listing) :
    afterStatement list list.terminator = .listed list := by
  have ends : listEnds list list.terminator = true := by
    cases list with
    | program done => cases done <;> rfl
    | block outer owner opening done => cases done <;> rfl
  rw [afterStatement, ends]
  rfl

/-- The place where a statement may start. -/
def atStatement (list : Listing) : Config := .due (.clause list .statement)

/-- Whether a list goes on here, once the next token shows that the last statement is complete. -/
def Awaits (c : Config) (list : Listing) : Prop :=
  ∀ next, (endsList next || next.any Terminal.startsStatement) = true →
    c.settle next = afterStatement list next

theorem awaits_atStatement (list : Listing) : (atStatement list).Awaits list :=
  fun _ _ => rfl

theorem awaits_thenDone (list : Listing) (keyword : Span) (test : Expr) (yes : Block) :
    (thenDone list keyword test yes).Awaits (list.push (ifStmt keyword test yes)) := by
  intro next goes
  rw [settle, goes]
  rfl

/-- The next statement is read as if the last one had ended in a semicolon. -/
theorem Awaits.run? {c : Config} {list : Listing} (awaits : c.Awaits list) {p : Phrase}
    (d : Derivation p) (marked : p.isMarked = true) :
    c.run? d.tokens = (atStatement list).run? d.tokens := by
  obtain ⟨t, ts, tokens, starts⟩ := d.starts marked
  have goes : (endsList (some (.of t.token)) ||
      (some (Terminal.of t.token)).any Terminal.startsStatement) = true := by
    rw [Option.any_some, starts, Bool.or_true]
  have step : c.step? t = (atStatement list).step? t := by
    rw [step?, step?, awaits _ goes, awaits_atStatement list _ goes]
  rw [tokens, run?_cons, run?_cons, step]

/-- Where an operand is due nothing can be completed, unless a list ends. -/
theorem step?_due {gap : Gap} {t : Located} (inside : Terminal.of t.token ≠ .mark .rbrace) :
    (due gap).step? t = due? gap t.span t.token := by
  have settled : (due gap).settle (some (.of t.token)) = .due gap := by
    unfold settle
    split
    · rename_i same; cases same
    · rename_i same; cases same
    · rename_i list same
      cases same
      have goesOn : listEnds list (some (.of t.token)) = false := by
        unfold listEnds
        split <;> simp [endsList, inside]
      rw [afterStatement, goesOn]
      rfl
    · rename_i same; cases same
    · rfl
  rw [step?, settled]
  rfl

theorem step?_due_mark {gap : Gap} {m : Mark} (inside : m ≠ .rbrace) (span : Span) :
    (due gap).step? (markAt m span) = dueMark? gap span m :=
  step?_due (t := markAt m span) (by simpa [markAt, Terminal.of] using inside)

/-- After an operand, what is neither an operator nor the end of an expression completes nothing. -/
theorem step?_operand {gap : Gap} {e : Expr} {inside : Option Fallback} {m : Mark}
    (noOperator : BinaryOp.ofMark? m = none) (open_ : closes (some (.mark m)) = false) (span : Span) :
    (operand gap e inside).step? (markAt m span) = operandMark? gap e span m := by
  have settled : (operand gap e inside).settle (some (.mark m)) = .operand gap e inside := by
    simp only [settle, Option.bind_some, Terminal.binaryOp?, noOperator, open_, Bool.false_eq_true,
      if_false]
  rw [step?, markAt, Terminal.of, settled]
  rfl

/-- An operator takes what its tier leaves to it. -/
theorem step?_operator {gap outer : Gap} {e left : Expr} {inside : Option Fallback} {m : Mark}
    {op : BinaryOp} (found : BinaryOp.ofMark? m = some op)
    (absorbed : gap.absorb op.tier e = (outer, left)) (span : Span) :
    (operand gap e inside).step? (markAt m span) = some (.due (.binary outer left op span)) := by
  simp only [step?, markAt, Terminal.of, settle, Option.bind_some, Terminal.binaryOp?, found, absorbed,
    shift?, operandMark?]

theorem binaryOp?_of_closes {t : Terminal} (closing : closes (some t) = true) :
    t.binaryOp? = none := by
  cases t with
  | mark m => cases m <;> first | rfl | cases closing
  | _ => rfl

/-- The token after an expression. -/
theorem step?_closing {gap outer : Gap} {e whole : Expr} {inside : Option Fallback} {t : Located}
    (closed : gap.close e = (outer, whole)) (closing : closes (some (.of t.token)) = true)
    (inList : Terminal.of t.token ≠ .mark .rbrace) :
    (operand gap e inside).step? t = whole? outer whole t.span t.token := by
  have goesOn : endsList (some (.of t.token)) = false := by simp [endsList, inList]
  have after : afterExpression outer whole (some (.of t.token)) = .whole outer whole := by
    rcases afterExpression_cases outer whole (some (.of t.token)) with
      ⟨_, _, _, -, -, ends, -⟩ | same
    · rw [goesOn] at ends
      cases ends
    · exact same
  simp only [step?, settle, Option.bind_some, binaryOp?_of_closes closing, closing, if_true, closed,
    after]
  rfl

/-- An expression that completes a statement completes the list where the list ends. -/
theorem settle_terminator {gap : Gap} {e whole : Expr} {inside : Option Fallback} {list : Listing}
    {part : Clause} {s : Stmt} (closed : gap.close e = (.clause list part, whole))
    (complete : part.complete? whole = some s) :
    (operand gap e inside).settle list.terminator = .listed (list.push s) := by
  have closing : closes list.terminator = true := by cases list <;> rfl
  have noOperator : list.terminator.bind Terminal.binaryOp? = none := by cases list <;> rfl
  simp only [settle, noOperator, closing, if_true, closed, afterExpression, complete,
    endsList_terminator]

end Config

/-! ## Gaps -/

/-- Operators around a gap that bind looser than a tier wait for it. -/
theorem Gap.absorb_of_level_le {gap : Gap} {tier : Nat} (level : gap.level ≤ tier) (low : tier ≤ 11)
    (e : Expr) : gap.absorb tier e = (gap, e) := by
  unfold absorb
  split
  · rename_i outer op opSpan e
    rw [Gap.level] at level
    split at level <;> omega
  · rename_i outer left op opSpan e
    rw [Gap.level] at level
    rw [if_neg (by omega)]
  · rfl

theorem Gap.isStep_of_level_le {gap : Gap} (level : gap.level ≤ 12) : gap.isStep = false := by
  cases gap with
  | unary outer op opSpan =>
      rw [Gap.level] at level
      rw [Gap.isStep]
      split at level
      · omega
      · rename_i other
        simpa using other
  | _ => rfl

/-- Whether an operand has been read that comes to an expression in a gap. -/
def Config.Holds (c : Config) (gap : Gap) (e : Expr) : Prop :=
  ∃ gap' e' inside, c = .operand gap' e' inside ∧ gap'.close e' = gap.close e

/-- Whether an operand has been read that comes to one of a level in a gap. -/
def Config.HoldsAt (c : Config) (level : Nat) (gap : Gap) (e : Expr) : Prop :=
  ∃ gap' e' inside, c = .operand gap' e' inside ∧ gap'.close e' = gap.close e ∧
    ∀ tier ≤ level, gap'.absorb tier e' = gap.absorb tier e

namespace Config

theorem holdsAt_operand (level : Nat) (gap : Gap) (e : Expr) (inside : Option Fallback) :
    (operand gap e inside).HoldsAt level gap e :=
  ⟨gap, e, inside, rfl, rfl, fun _ _ => rfl⟩

theorem HoldsAt.holds {c : Config} {level : Nat} {gap : Gap} {e : Expr}
    (holds : c.HoldsAt level gap e) : c.Holds gap e := by
  obtain ⟨gap', e', inside, same, closed, -⟩ := holds
  exact ⟨gap', e', inside, same, closed⟩

/-- The token after an expression that fills a bracket or a clause. -/
theorem Holds.step? {c : Config} {gap : Gap} {e : Expr} {t : Located} (holds : c.Holds gap e)
    (closed : gap.close e = (gap, e)) (closing : closes (some (.of t.token)) = true)
    (inList : Terminal.of t.token ≠ .mark .rbrace) :
    c.step? t = whole? gap e t.span t.token := by
  obtain ⟨gap', e', inside, rfl, same⟩ := holds
  exact step?_closing (same.trans closed) closing inList

end Config

/-! ## Derivations -/

/-- What becomes of the tokens of a derivation, where its phrase may stand. -/
def Derivation.Taken : {p : Phrase} → Derivation p → Prop
  | .statements, d => ∀ list : Listing, ∃ c, (Config.atStatement list).run? d.tokens = some c ∧
      c.settle list.terminator = .listed (list.pushAll d.tree)
  | .closedList, d => ∀ list, ∃ c, (Config.atStatement list).run? d.tokens = some c ∧
      c.Awaits (list.pushAll d.tree)
  | .closedStmt, d => ∀ list, ∃ c, (Config.atStatement list).run? d.tokens = some c ∧
      c.Awaits (list.push d.tree)
  | .openStmt, d => ∀ list, ∃ c part e, (Config.atStatement list).run? d.tokens = some c ∧
      c.Holds (.clause list part) e ∧ part.complete? e = some d.tree
  -- The brace is taken in many places; what follows it is read in the same way.
  | .block, d => ∃ opening ts, d.tokens = markAt .lbrace opening :: ts ∧
      ∀ list owner, (Config.openBlock list owner opening).run? ts =
        some (Config.closeBlock list owner d.tree)
  | .expression, d => ∀ gap, gap.takesExpression = true →
      ∃ c, (Config.due gap).run? d.tokens = some c ∧ c.Holds gap d.tree
  | .operand level, d => ∀ gap, gap.level ≤ level →
      ∃ c, (Config.due gap).run? d.tokens = some c ∧ c.HoldsAt level gap d.tree
  | .arguments, d => ∀ outer callee, ∃ c args e,
      (Config.due (.call outer callee [])).run? d.tokens = some c ∧
        c.Holds (.call outer callee args) e ∧ (e :: args).reverse = d.tree

namespace Derivation

open Config

theorem taken_binary {level : Nat} {left : Derivation (.operand level)} {m : Mark} {op : BinaryOp}
    (listed : (m, op) ∈ binaryMarks level) (opSpan : Span)
    {right : Derivation (.operand (level + 1))} (takenLeft : left.Taken) (takenRight : right.Taken) :
    (binary left m op listed opSpan right).Taken := by
  intro gap low
  obtain ⟨found, tier⟩ := of_mem_binaryMarks listed
  have bounds := tier_bounds op
  obtain ⟨_, runLeft, gap', e', inside, rfl, -, absorbs⟩ := takenLeft gap low
  have absorbed : gap'.absorb op.tier e' = (gap, left.tree) := by
    rw [absorbs op.tier (by omega)]
    exact Gap.absorb_of_level_le (by omega) bounds.2 left.tree
  have inner : (Gap.binary gap left.tree op opSpan).level ≤ level + 1 := by
    rw [Gap.level]
    omega
  obtain ⟨_, runRight, gap'', e'', inside', rfl, closes, absorbs'⟩ := takenRight _ inner
  refine ⟨_, ?_, gap'', e'', inside', rfl, closes, ?_⟩
  · rw [Derivation.tokens, run?_append, runLeft, Option.bind_some, run?_cons,
      step?_operator found absorbed, Option.bind_some, runRight]
  · intro t le
    rw [absorbs' t (by omega), Gap.absorb, if_pos (by omega)]
    rfl

theorem taken_unary {level : Nat} {m : Mark} {op : UnaryOp} (found : UnaryOp.ofMark? m = some op)
    (own : (if op.isStep then 13 else 12) = level) (opSpan : Span)
    {operand : Derivation (.operand level)} (taken : operand.Taken) {gap : Gap}
    (low : gap.level ≤ level) :
    ∃ c, (Config.due gap).run? (markAt m opSpan :: operand.tokens) = some c ∧
      c.HoldsAt level gap
        (.unary (opSpan.through (Expr.span operand.tree)) op opSpan operand.tree) := by
  have allowed : (gap.isStep && !op.isStep) = false := by
    cases steps : op.isStep with
    | true => rw [Bool.not_true, Bool.and_false]
    | false =>
        rw [steps, if_neg Bool.false_ne_true] at own
        rw [Gap.isStep_of_level_le (own ▸ low)]
        rfl
  have inside : m ≠ .rbrace := by
    rintro rfl
    cases found
  have inner : (Gap.unary gap op opSpan).level ≤ level := by
    rw [Gap.level]
    omega
  obtain ⟨_, run, gap', e', inside', rfl, closes, absorbs⟩ := taken _ inner
  refine ⟨_, ?_, gap', e', inside', rfl, closes, absorbs⟩
  have step : dueMark? gap opSpan m = some (.due (.unary gap op opSpan)) := by
    unfold dueMark?
    simp [found, allowed]
  rw [run?_cons, step?_due_mark inside, step]
  exact run

theorem taken_literal (value : Literal) (span : Span) : (literal value span).Taken := by
  intro gap low
  refine ⟨.operand gap (.literal span value) none, ?_, holdsAt_operand _ _ _ _⟩
  rw [Derivation.tokens, run?_cons, step?_due]
  · cases value with
    | bool b => cases b <;> rfl
    | _ => rfl
  · cases value with
    | bool b => cases b <;> exact nofun
    | _ => exact nofun

theorem step?_word (gap : Gap) (w : Word) :
    (Config.due gap).step? w.token = some (.operand gap (.name w.name) none) :=
  step?_due (t := w.token) nofun

theorem step?_call (gap : Gap) (w : Word) (opening : Span) :
    (Config.operand gap (.name w.name) none).step? (markAt .lparen opening) =
      some (.due (.call gap w.name [])) :=
  step?_operand rfl rfl opening

theorem taken_callBare (callee : Word) (opening closing : Span) :
    (callBare callee opening closing).Taken := by
  intro gap low
  refine ⟨.operand gap _ (some ⟨.call gap callee.name [], some closing.start⟩), ?_,
    holdsAt_operand _ _ _ _⟩
  rw [Derivation.tokens, run?_cons, step?_word, Option.bind_some, run?_cons, step?_call,
    Option.bind_some, run?_cons, step?_due_mark (m := .rparen) nofun]
  rfl

theorem taken_call (callee : Word) (opening : Span) {args : Derivation .arguments} (closing : Span)
    (taken : args.Taken) : (call callee opening args closing).Taken := by
  intro gap low
  obtain ⟨c, rest, e, run, holds, tree⟩ := taken gap callee.name
  refine ⟨.operand gap _ (some ⟨.call gap callee.name [], some (rest.getLastD e).span.start⟩), ?_,
    holdsAt_operand _ _ _ _⟩
  rw [Derivation.tokens, run?_cons, step?_word, Option.bind_some, run?_cons, step?_call,
    Option.bind_some, run?_append, run, Option.bind_some, run?_cons,
    holds.step? (t := markAt .rparen closing) rfl rfl nofun]
  simp only [markAt, whole?, tree]
  rfl

theorem taken_paren (opening : Span) {e : Derivation .expression} (closing : Span)
    (taken : e.Taken) : (paren opening e closing).Taken := by
  intro gap low
  obtain ⟨c, run, holds⟩ := taken (.paren gap opening) rfl
  refine ⟨.operand gap _ (some ⟨.paren gap opening, some (Expr.span e.tree).start⟩), ?_,
    holdsAt_operand _ _ _ _⟩
  rw [Derivation.tokens, run?_cons, step?_due_mark (m := .lparen) nofun]
  simp only [dueMark?, UnaryOp.ofMark?, Option.bind_some]
  rw [run?_append, run, Option.bind_some, run?_cons,
    holds.step? (t := markAt .rparen closing) rfl rfl nofun]
  rfl

theorem taken_another {args : Derivation .arguments} (comma : Span) {e : Derivation .expression}
    (takenArgs : args.Taken) (taken : e.Taken) : (another args comma e).Taken := by
  intro outer callee
  obtain ⟨c, rest, last, run, holds, tree⟩ := takenArgs outer callee
  obtain ⟨c', run', holds'⟩ := taken (.call outer callee (last :: rest)) rfl
  refine ⟨c', last :: rest, e.tree, ?_, holds', ?_⟩
  · rw [Derivation.tokens, run?_append, run, Option.bind_some, run?_cons,
      holds.step? (t := markAt .comma comma) rfl rfl nofun]
    exact run'
  · rw [Derivation.tree, ← tree, List.reverse_cons]

theorem taken_assign (target : Word) (eq : Span) {value : Derivation .expression}
    (taken : value.Taken) : (assign target eq value).Taken := by
  intro gap takes
  obtain ⟨_, run, gap', e', inside, rfl, closes⟩ := taken (.assign gap target.name) rfl
  refine ⟨_, ?_, gap', e', inside, rfl, closes⟩
  rw [Derivation.tokens, run?_cons, step?_word, Option.bind_some, run?_cons, step?_operand rfl rfl,
    operandMark?]
  simp only [BinaryOp.ofMark?, name?, Word.name, Name.read, takes, if_true, Bool.false_eq_true,
    if_false, reduceCtorEq, Option.bind_some]
  exact run

theorem noOperator_of_compound {m : Mark} {op : BinaryOp} (found : BinaryOp.ofCompound? m = some op) :
    BinaryOp.ofMark? m = none ∧ closes (some (.mark m)) = false ∧ m ≠ .lparen ∧ m ≠ .eq := by
  cases m <;> cases found <;> simp [BinaryOp.ofMark?, closes]

theorem taken_compound (target : Word) {m : Mark} {op : BinaryOp}
    (listed : (m, op) ∈ compoundMarks) (opSpan : Span) {value : Derivation .expression}
    (taken : value.Taken) : (compound target m op listed opSpan value).Taken := by
  intro gap takes
  have found := mem_compoundMarks.1 listed
  obtain ⟨noOperator, stays, noCall, noEq⟩ := noOperator_of_compound found
  obtain ⟨_, run, gap', e', inside, rfl, closes⟩ := taken (.compound gap target.name op opSpan) rfl
  refine ⟨_, ?_, gap', e', inside, rfl, closes⟩
  rw [Derivation.tokens, run?_cons, step?_word, Option.bind_some, run?_cons,
    step?_operand noOperator stays, operandMark?]
  simp only [noOperator, name?, Word.name, Name.read, takes, noCall, noEq, found, if_true,
    Bool.false_eq_true, if_false, Option.map_some, Option.bind_some]
  exact run

theorem taken_braces (opening : Span) {body : Derivation .statements} (closing : Span)
    (taken : body.Taken) : (braces opening body closing).Taken := by
  refine ⟨opening, _, rfl, ?_⟩
  intro list owner
  obtain ⟨c, run, settled⟩ := taken (.block list owner opening [])
  rw [Listing.pushAll_block, List.append_nil] at settled
  have step : c.step? (markAt .rbrace closing) =
      some (closeBlock list owner (.mk (opening.through closing) body.tree.reverse.reverse)) := by
    rw [step?]
    exact congrArg (fun c => shift? closing c (.mark .rbrace)) settled
  rw [List.reverse_reverse] at step
  have opened : (openBlock list owner opening).run? body.tokens = some c := run
  rw [run?_append, opened, Option.bind_some, run?_cons, step]
  rfl

/-- A block after the token that shows it. -/
theorem run?_block (owner : Owner) {body : Derivation .block} (taken : body.Taken) {c : Config}
    {list : Listing}
    (opens : ∀ opening, c.step? (markAt .lbrace opening) = some (openBlock list owner opening)) :
    c.run? body.tokens = some (closeBlock list owner body.tree) := by
  obtain ⟨opening, ts, tokens, run⟩ := taken
  rw [tokens, run?_cons, opens opening, Option.bind_some, run]

theorem step?_keyword (list : Listing) (k : Keyword) (span : Span)
    (plain : k ≠ .trueKw ∧ k ≠ .falseKw) :
    (atStatement list).step? (keywordAt k span) = statementKeyword? list span k := by
  rw [atStatement, step?_due (t := keywordAt k span) nofun]
  cases k <;> first | rfl | exact absurd rfl plain.1 | exact absurd rfl plain.2

/-- An expression as a part of a statement, and the block after it. -/
theorem run?_clause (owner : Owner) {e : Derivation .expression} (taken : e.Taken)
    {body : Derivation .block} (takenBody : body.Taken) {list : Listing} {part : Clause}
    (opens : ∀ opening, clauseToken? list part e.tree opening (.mark .lbrace) =
      some (openBlock list owner opening)) :
    (Config.due (.clause list part)).run? (e.tokens ++ body.tokens) =
      some (closeBlock list owner body.tree) := by
  obtain ⟨c, run, holds⟩ := taken (.clause list part) rfl
  rw [run?_append, run, Option.bind_some]
  refine run?_block owner takenBody fun opening => ?_
  rw [holds.step? (t := markAt .lbrace opening) rfl rfl nofun]
  exact opens opening

theorem taken_block {body : Derivation .block} (taken : body.Taken) : (block body).Taken := by
  intro list
  refine ⟨_, run?_block .plain taken fun opening => ?_, awaits_atStatement _⟩
  exact step?_due_mark (m := .lbrace) nofun opening

theorem taken_ifThen (keyword : Span) {test : Derivation .expression} {yes : Derivation .block}
    (takenTest : test.Taken) (takenYes : yes.Taken) : (ifThen keyword test yes).Taken := by
  intro list
  refine ⟨.thenDone list keyword test.tree yes.tree, ?_, awaits_thenDone _ _ _ _⟩
  rw [Derivation.tokens, run?_cons, step?_keyword list .ifKw keyword (by decide)]
  exact run?_clause (.thenPart keyword test.tree) takenTest takenYes fun _ => rfl

theorem taken_ifElse (keyword : Span) {test : Derivation .expression} {yes : Derivation .block}
    (keyword' : Span) {no : Derivation .block} (takenTest : test.Taken) (takenYes : yes.Taken)
    (takenNo : no.Taken) : (ifElse keyword test yes keyword' no).Taken := by
  intro list
  have first : (Config.due (.clause list (.ifTest keyword))).run? (test.tokens ++ yes.tokens) =
      some (.thenDone list keyword test.tree yes.tree) :=
    run?_clause (.thenPart keyword test.tree) takenTest takenYes fun _ => rfl
  have second : (Config.elseStart list keyword test.tree yes.tree).run? no.tokens =
      some (closeBlock list (.elsePart keyword test.tree yes.tree) no.tree) :=
    run?_block _ takenNo fun _ => rfl
  refine ⟨_, ?_, awaits_atStatement _⟩
  rw [Derivation.tokens, run?_cons, step?_keyword list .ifKw keyword (by decide)]
  simp only [statementKeyword?, Option.bind_some]
  rw [run?_append, first, Option.bind_some, run?_cons]
  exact second

theorem taken_whileTrue (keyword : Span) {body : Derivation .block} (taken : body.Taken) :
    (whileTrue keyword body).Taken := by
  intro list
  have run : (Config.due (.clause list (.whileTest keyword))).run? body.tokens =
      some (closeBlock list (.whileBody keyword none) body.tree) := by
    refine run?_block _ taken fun opening => ?_
    exact step?_due_mark (m := .lbrace) nofun opening
  refine ⟨_, ?_, awaits_atStatement _⟩
  rw [Derivation.tokens, run?_cons, step?_keyword list .whileKw keyword (by decide)]
  exact run

theorem taken_whileTest (keyword : Span) {test : Derivation .expression} {body : Derivation .block}
    (takenTest : test.Taken) (taken : body.Taken) : (whileTest keyword test body).Taken := by
  intro list
  have run : (Config.due (.clause list (.whileTest keyword))).run? (test.tokens ++ body.tokens) =
      some (closeBlock list (.whileBody keyword (some test.tree)) body.tree) :=
    run?_clause _ takenTest taken fun _ => rfl
  refine ⟨_, ?_, awaits_atStatement _⟩
  rw [Derivation.tokens, run?_cons, step?_keyword list .whileKw keyword (by decide)]
  exact run

/-- The word `mut` is taken where it may stand, and noted. -/
theorem run?_forNamed (list : Listing) (keyword : Span) (mutable : Option Span) (w : Word) :
    (forStart list keyword).run? (mutTokens mutable ++ [w.token]) =
      some (.forNamed list keyword mutable.isSome w.name) := by
  cases mutable <;> rfl

theorem run?_varNamed (list : Listing) (keyword : Span) (mutable : Option Span) (w : Word) :
    (varStart list keyword).run? (mutTokens mutable ++ [w.token]) =
      some (.varNamed list keyword mutable.isSome w.name) := by
  cases mutable <;> rfl

theorem run?_typeTokens (list : Listing) (keyword : Span) (mutable : Bool) (name : Name)
    (ty : Option (Span × Word)) (eq : Span) :
    (varNamed list keyword mutable name).run? (typeTokens ty ++ [markAt .eq eq]) =
      some (.due (.clause list (.varInit keyword mutable name (ty.map (·.2.name))))) := by
  cases ty <;> rfl

theorem taken_forTo (keyword : Span) (mutable : Option Span) (w : Word) (eq : Span)
    {lower : Derivation .expression} (till : Span) {upper : Derivation .expression}
    {body : Derivation .block} (takenLower : lower.Taken) (takenUpper : upper.Taken)
    (taken : body.Taken) : (forTo keyword mutable w eq lower till upper body).Taken := by
  intro list
  obtain ⟨c, run, holds⟩ := takenLower (.clause list (.forLower keyword mutable.isSome w.name)) rfl
  have step : c.step? (keywordAt .toKw till) =
      some (.due (.clause list (.forUpper keyword mutable.isSome w.name lower.tree))) :=
    holds.step? (t := keywordAt .toKw till) rfl rfl nofun
  have rest : (Config.due (.clause list (.forUpper keyword mutable.isSome w.name lower.tree))).run?
      (upper.tokens ++ body.tokens) =
        some (closeBlock list (.forBody keyword mutable.isSome w.name lower.tree upper.tree)
          body.tree) :=
    run?_clause _ takenUpper taken fun _ => rfl
  refine ⟨_, ?_, awaits_atStatement _⟩
  rw [Derivation.tokens, run?_cons, step?_keyword list .forKw keyword (by decide)]
  simp only [statementKeyword?, Option.bind_some]
  rw [List.append_cons, run?_append, run?_forNamed, Option.bind_some, run?_cons]
  have named : (forNamed list keyword mutable.isSome w.name).step? (markAt .eq eq) =
      some (.due (.clause list (.forLower keyword mutable.isSome w.name))) := rfl
  rw [named, Option.bind_some, run?_append, run, Option.bind_some, run?_cons, step,
    Option.bind_some]
  exact rest

theorem taken_var (keyword : Span) (mutable : Option Span) (w : Word) (ty : Option (Span × Word))
    (eq : Span) {init : Derivation .expression} (taken : init.Taken) :
    (var keyword mutable w ty eq init).Taken := by
  intro list
  obtain ⟨c, run, holds⟩ :=
    taken (.clause list (.varInit keyword mutable.isSome w.name (ty.map (·.2.name)))) rfl
  refine ⟨c, _, _, ?_, holds, rfl⟩
  rw [Derivation.tokens, run?_cons, step?_keyword list .varKw keyword (by decide)]
  simp only [statementKeyword?, Option.bind_some]
  rw [List.append_cons, run?_append, run?_varNamed, Option.bind_some, List.append_cons, run?_append,
    run?_typeTokens, Option.bind_some, run]

theorem taken_doWhile (keyword : Span) {body : Derivation .block} (keyword' : Span)
    {test : Derivation .expression} (takenBody : body.Taken) (taken : test.Taken) :
    (doWhile keyword body keyword' test).Taken := by
  intro list
  obtain ⟨c, run, holds⟩ := taken (.clause list (.doTest keyword body.tree)) rfl
  have first : (doStart list keyword).run? body.tokens = some (.doDone list keyword body.tree) :=
    run?_block (.doBody keyword) takenBody fun _ => rfl
  refine ⟨c, _, _, ?_, holds, rfl⟩
  rw [Derivation.tokens, run?_cons, step?_keyword list .doKw keyword (by decide)]
  simp only [statementKeyword?, Option.bind_some]
  rw [run?_append, first, Option.bind_some, run?_cons]
  exact run

theorem taken_ended {s : Derivation .openStmt} (semi : Span) (taken : s.Taken) :
    (ended s semi).Taken := by
  intro list
  obtain ⟨c, part, e, run, holds, complete⟩ := taken list
  have step : c.step? (markAt .semi semi) = some (next list s.tree) := by
    rw [holds.step? (t := markAt .semi semi) rfl rfl nofun]
    have mapped : (part.complete? e).map (next list) = some (next list s.tree) := by
      rw [complete, Option.map_some]
    cases part <;> exact mapped
  refine ⟨_, ?_, awaits_atStatement _⟩
  rw [Derivation.tokens, run?_append, run, Option.bind_some, run?_cons, step]
  rfl

theorem taken_append {body : Derivation .closedList} {s : Derivation .closedStmt}
    (takenBody : body.Taken) (taken : s.Taken) : (append body s).Taken := by
  intro list
  obtain ⟨c, run, awaits⟩ := takenBody list
  obtain ⟨c', run', awaits'⟩ := taken (list.pushAll body.tree)
  refine ⟨c', ?_, ?_⟩
  · rw [Derivation.tokens, run?_append, run, Option.bind_some, awaits.run? s rfl, run']
  · rw [Derivation.tree, Listing.pushAll_append]
    exact awaits'

theorem taken_closedOnly {body : Derivation .closedList} (taken : body.Taken) :
    (closedOnly body).Taken := by
  intro list
  obtain ⟨c, run, awaits⟩ := taken list
  have ends : (endsList list.terminator || list.terminator.any Terminal.startsStatement) = true := by
    rw [endsList_terminator]
    rfl
  refine ⟨c, run, ?_⟩
  rw [awaits _ ends, ← Listing.terminator_pushAll list body.tree]
  exact afterStatement_terminator _

theorem taken_openLast {body : Derivation .closedList} {last : Derivation .openStmt}
    (takenBody : body.Taken) (taken : last.Taken) : (openLast body last).Taken := by
  intro list
  obtain ⟨c, run, awaits⟩ := takenBody list
  obtain ⟨_, part, e, run', ⟨gap', e', inside, rfl, closed⟩, complete⟩ :=
    taken (list.pushAll body.tree)
  refine ⟨.operand gap' e' inside, ?_, ?_⟩
  · rw [Derivation.tokens, run?_append, run, Option.bind_some, awaits.run? last rfl, run']
  · rw [Derivation.tree, Listing.pushAll_append, ← Listing.terminator_pushAll list body.tree]
    exact settle_terminator closed complete

/-- The tokens of a derivation are taken as its tree. -/
theorem taken {p : Phrase} (d : Derivation p) : d.Taken := by
  induction d with
  | closedOnly body ih => exact taken_closedOnly ih
  | openLast body last ihBody ihLast => exact taken_openLast ihBody ihLast
  | nothing => exact fun list => ⟨_, rfl, awaits_atStatement list⟩
  | append body next ihBody ihNext => exact taken_append ihBody ihNext
  | ended s semi ih => exact taken_ended semi ih
  | block body ih => exact taken_block ih
  | ifThen keyword test yes ihTest ihYes => exact taken_ifThen keyword ihTest ihYes
  | ifElse keyword test yes keyword' no ihTest ihYes ihNo =>
      exact taken_ifElse keyword keyword' ihTest ihYes ihNo
  | whileTrue keyword body ih => exact taken_whileTrue keyword ih
  | whileTest keyword test body ihTest ih => exact taken_whileTest keyword ihTest ih
  | forTo keyword mutable w eq lower till upper body ihLower ihUpper ih =>
      exact taken_forTo keyword mutable w eq till ihLower ihUpper ih
  | var keyword mutable w ty eq init ih => exact taken_var keyword mutable w ty eq ih
  | doWhile keyword body keyword' test ihBody ih => exact taken_doWhile keyword keyword' ihBody ih
  | expr e ih =>
      intro list
      obtain ⟨c, run, holds⟩ := ih (.clause list .statement) rfl
      exact ⟨c, .statement, _, run, holds, rfl⟩
  | braces opening body closing ih => exact taken_braces opening closing ih
  | assign target eq value ih => exact taken_assign target eq ih
  | compound target m op listed opSpan value ih => exact taken_compound target listed opSpan ih
  | operation e ih =>
      intro gap takes
      have low : gap.level ≤ 1 := by rw [Gap.level_of_takesExpression takes]; decide
      obtain ⟨c, run, holds⟩ := ih gap low
      exact ⟨c, run, holds.holds⟩
  | binary left m op listed opSpan right ihLeft ihRight =>
      exact taken_binary listed opSpan ihLeft ihRight
  | tighter loose e ih =>
      intro gap low
      obtain ⟨c, run, gap', e', inside, same, closed, absorbs⟩ := ih gap (Nat.le_succ_of_le low)
      exact ⟨c, run, gap', e', inside, same, closed, fun t le => absorbs t (Nat.le_succ_of_le le)⟩
  | unary m op listed opSpan operand ih =>
      obtain ⟨found, plain⟩ := mem_prefixMarks.1 listed
      exact fun gap low => taken_unary found (by rw [plain]; rfl) opSpan ih low
  | step m op listed opSpan operand ih =>
      obtain ⟨found, steps⟩ := mem_stepMarks.1 listed
      exact fun gap low => taken_unary found (by rw [steps]; rfl) opSpan ih low
  | literal value span => exact taken_literal value span
  | name w =>
      intro gap low
      refine ⟨.operand gap (.name w.name) none, ?_, holdsAt_operand _ _ _ _⟩
      rw [Derivation.tokens, run?_cons, step?_word]
      rfl
  | callBare callee opening closing => exact taken_callBare callee opening closing
  | call callee opening args closing ih => exact taken_call callee opening closing ih
  | paren opening e closing ih => exact taken_paren opening closing ih
  | one e ih =>
      intro outer callee
      obtain ⟨c, run, holds⟩ := ih (.call outer callee []) rfl
      exact ⟨c, [], _, run, holds, rfl⟩
  | another args comma e ihArgs ih => exact taken_another comma ihArgs ih

/-- A program is read to its end, as the tree of its derivation. -/
theorem run?_program (d : Derivation .statements) :
    ∃ c, Config.start.run? d.tokens = some c ∧ c.finish? = some d.tree := by
  obtain ⟨c, run, settled⟩ := d.taken (.program [])
  refine ⟨c, run, ?_⟩
  rw [Listing.pushAll_program, List.append_nil] at settled
  have ended : c.settle none = .listed (.program (List.reverse d.tree)) := settled
  rw [finish?, ended]
  exact congrArg some (List.reverse_reverse _)

end Derivation

end ScriptLang.Syntax
