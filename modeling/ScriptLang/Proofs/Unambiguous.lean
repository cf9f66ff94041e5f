/-
# ScriptLang.Proofs.Unambiguous -- a program has one derivation

Two derivations of the same tokens have the same tree, as both trees are what is
read.  They are then the same production by production: the tree and the tokens
tell the production, and the tokens of its first part end where those of the
other derivation end.  Only at the end of a list of statements that takes a look
at what follows, since the last semicolon may be missing.
-/
import ScriptLang.Proofs.Accepted

namespace ScriptLang.Syntax

set_option autoImplicit false

/-! ## Tokens -/

theorem keywordAt_inj {k : Keyword} {span span' : Span} {ts ts' : List Located}
    (tokens : keywordAt k span :: ts = keywordAt k span' :: ts') : span = span' ∧ ts = ts' := by
  cases tokens
  exact ⟨rfl, rfl⟩

theorem markAt_inj {m m' : Mark} {span span' : Span} {ts ts' : List Located}
    (tokens : markAt m span :: ts = markAt m' span' :: ts') : m = m' ∧ span = span' ∧ ts = ts' := by
  cases tokens
  exact ⟨rfl, rfl, rfl⟩

theorem Word.token_inj {w w' : Word} {ts ts' : List Located}
    (tokens : w.token :: ts = w'.token :: ts') : w = w' ∧ ts = ts' := by
  obtain ⟨text, span⟩ := w
  obtain ⟨text', span'⟩ := w'
  cases tokens
  exact ⟨rfl, rfl⟩

/-- The word `mut` tells itself from the name that follows. -/
theorem mutTokens_inj {mutable mutable' : Option Span} {w w' : Word} {ts ts' : List Located}
    (tokens : mutTokens mutable ++ w.token :: ts = mutTokens mutable' ++ w'.token :: ts') :
    mutable = mutable' ∧ w = w' ∧ ts = ts' := by
  obtain ⟨text, span⟩ := w
  obtain ⟨text', span'⟩ := w'
  cases mutable <;> cases mutable' <;> cases tokens <;> exact ⟨rfl, rfl, rfl⟩

theorem typeTokens_inj {ty ty' : Option (Span × Word)} {eq eq' : Span} {ts ts' : List Located}
    (tokens : typeTokens ty ++ markAt .eq eq :: ts = typeTokens ty' ++ markAt .eq eq' :: ts') :
    ty = ty' ∧ eq = eq' ∧ ts = ts' := by
  cases ty with
  | none =>
      cases ty' with
      | none =>
          cases tokens
          exact ⟨rfl, rfl, rfl⟩
      | some ty' => cases tokens
  | some ty =>
      obtain ⟨colon, text, span⟩ := ty
      cases ty' with
      | none => cases tokens
      | some ty' =>
          obtain ⟨colon', text', span'⟩ := ty'
          cases tokens
          exact ⟨rfl, rfl, rfl⟩

/-! ## Shapes of trees -/

/-- The tightest level of operands that an expression is one of; zero is for assignments. -/
def Expr.tightness : Expr → Nat
  | .assign .. => 0
  | .binary _ _ op _ _ => op.tier
  | .unary _ op _ _ => if op.isStep then 13 else 12
  | _ => 14

/-- Whether a statement can stand without a semicolon only at the end. -/
def Stmt.isOpen : Stmt → Bool
  | .var .. | .doWhile .. | .expr _ => true
  | _ => false

namespace Derivation

theorem le_tightness {p : Phrase} (d : Derivation p) {level : Nat} (same : p = .operand level) :
    level ≤ Expr.tightness (same ▸ d).tree := by
  induction d generalizing level with
  | binary left m op listed opSpan right =>
      cases same
      exact Nat.le_of_eq (of_mem_binaryMarks listed).2.symm
  | tighter loose e ih =>
      cases same
      exact Nat.le_of_succ_le (ih rfl)
  | unary m op listed opSpan operand =>
      cases same
      simp [Derivation.tree, Expr.tightness, (mem_prefixMarks.1 listed).2]
  | step m op listed opSpan operand =>
      cases same
      simp [Derivation.tree, Expr.tightness, (mem_stepMarks.1 listed).2]
  | literal | name | callBare | call | paren =>
      cases same
      exact Nat.le_refl 14
  | _ => cases same

theorem tree_ne_assign (d : Derivation (.operand 1)) {span : Span} {target : Name} {value : Expr} :
    d.tree ≠ .assign span target value := by
  intro tree
  have tight := d.le_tightness rfl
  rw [show d.tree = _ from tree] at tight
  cases tight

/-- A statement that ends in a block is no open one. -/
theorem ne_tree_of_closed {s : Stmt} (closed : s.isOpen = false) (d : Derivation .openStmt) :
    s ≠ d.tree := by
  rintro rfl
  cases d <;> cases closed

/-! ## Determined derivations -/

end Derivation

/-- What may follow a phrase that has ended: after statements, no semicolon. -/
def Phrase.AllowsAfter : Phrase → List Located → Prop
  | .statements, ts => ∀ semi us, ts ≠ markAt .semi semi :: us
  | _, _ => True

namespace Derivation

/-- Whether a derivation is the only one of its tree from tokens that start like its own. -/
def Determined {p : Phrase} (d : Derivation p) : Prop :=
  ∀ (d' : Derivation p) (ts ts' : List Located), p.AllowsAfter ts → p.AllowsAfter ts' →
    d.tree = d'.tree → d.tokens ++ ts = d'.tokens ++ ts' → d = d' ∧ ts = ts'

/-- Whether a semicolon follows an open statement that is read in the place of the last statement. -/
def Separated : {p : Phrase} → Derivation p → Prop
  | .closedStmt, d => ∀ (last : Derivation .openStmt) (ts ts' : List Located),
      d.tree = last.tree → d.tokens ++ ts = last.tokens ++ ts' →
        ∃ semi, ts' = markAt .semi semi :: ts
  | .closedList, d => ∀ (body : Derivation .closedList) (last : Derivation .openStmt)
      (ts ts' : List Located), d.tree = body.tree ++ [last.tree] →
        d.tokens ++ ts = body.tokens ++ last.tokens ++ ts' → ∃ semi, ts' = markAt .semi semi :: ts
  | _, _ => True

theorem separated_of_closed {d : Derivation .closedStmt} (closed : Stmt.isOpen d.tree = false) :
    d.Separated :=
  fun last _ _ tree => absurd tree (last.ne_tree_of_closed closed)

/-! ### Lists of statements -/

theorem Determined.closedOnly {body : Derivation .closedList} (determined : body.Determined)
    (separated : body.Separated) : (closedOnly body).Determined := by
  intro d' ts ts' allows allows' tree tokens
  cases d' with
  | closedOnly body' =>
      obtain ⟨rfl, rfl⟩ := determined body' ts ts' trivial trivial tree tokens
      exact ⟨rfl, rfl⟩
  | openLast body' last' =>
      obtain ⟨semi, same⟩ := separated body' last' ts ts' tree tokens
      exact absurd same (allows' semi ts)

theorem Determined.openLast {body : Derivation .closedList} {last : Derivation .openStmt}
    (determined : body.Determined) (determinedLast : last.Determined) :
    (openLast body last).Determined := by
  intro d' ts ts' allows allows' tree tokens
  cases d' with
  | closedOnly body' =>
      cases body' with
      | nothing => exact absurd tree (by simp [Derivation.tree])
      | append body' next' =>
          simp only [Derivation.tokens, Derivation.tree, List.append_assoc] at tree tokens
          obtain ⟨treeBody, treeLast⟩ := List.append_inj' tree rfl
          obtain ⟨rfl, rest⟩ := determined body' _ _ trivial trivial treeBody tokens
          have treeLast := List.singleton_inj.1 treeLast
          cases next' with
          | ended last' semi' =>
              simp only [Derivation.tokens, List.append_assoc] at rest
              obtain ⟨-, same⟩ := determinedLast last' _ _ trivial trivial treeLast rest
              exact absurd same (allows semi' ts')
          | _ => exact absurd treeLast.symm (last.ne_tree_of_closed rfl)
  | openLast body' last' =>
      simp only [Derivation.tokens, Derivation.tree, List.append_assoc] at tree tokens
      obtain ⟨treeBody, treeLast⟩ := List.append_inj' tree rfl
      obtain ⟨rfl, rest⟩ := determined body' _ _ trivial trivial treeBody tokens
      obtain ⟨rfl, rfl⟩ := determinedLast last' _ _ trivial trivial
        (List.singleton_inj.1 treeLast) rest
      exact ⟨rfl, rfl⟩

theorem determined_nothing : nothing.Determined ∧ nothing.Separated := by
  refine ⟨?_, ?_⟩
  · intro d' ts ts' _ _ tree tokens
    cases d' with
    | nothing => exact ⟨rfl, tokens⟩
    | append body' next' => exact absurd tree (by simp [Derivation.tree])
  · intro body last ts ts' tree
    exact absurd tree (by simp [Derivation.tree])

theorem Determined.append {body : Derivation .closedList} {next : Derivation .closedStmt}
    (determined : body.Determined) (determinedNext : next.Determined)
    (separated : next.Separated) : (append body next).Determined ∧ (append body next).Separated := by
  refine ⟨?_, ?_⟩
  · intro d' ts ts' _ _ tree tokens
    cases d' with
    | nothing => exact absurd tree (by simp [Derivation.tree])
    | append body' next' =>
        simp only [Derivation.tokens, Derivation.tree, List.append_assoc] at tree tokens
        obtain ⟨treeBody, treeLast⟩ := List.append_inj' tree rfl
        obtain ⟨rfl, rest⟩ := determined body' _ _ trivial trivial treeBody tokens
        obtain ⟨rfl, rfl⟩ := determinedNext next' _ _ trivial trivial
          (List.singleton_inj.1 treeLast) rest
        exact ⟨rfl, rfl⟩
  · intro body' last' ts ts' tree tokens
    simp only [Derivation.tokens, Derivation.tree, List.append_assoc] at tree tokens
    obtain ⟨treeBody, treeLast⟩ := List.append_inj' tree rfl
    obtain ⟨rfl, rest⟩ := determined body' _ _ trivial trivial treeBody tokens
    exact separated last' ts ts' (List.singleton_inj.1 treeLast) rest

theorem Determined.ended {s : Derivation .openStmt} (semi : Span) (determined : s.Determined) :
    (ended s semi).Determined ∧ (ended s semi).Separated := by
  refine ⟨?_, ?_⟩
  · intro d' ts ts' _ _ tree tokens
    cases d' with
    | ended s' semi' =>
        simp only [Derivation.tokens, List.append_assoc] at tokens
        obtain ⟨rfl, rest⟩ := determined s' _ _ trivial trivial tree tokens
        cases rest
        exact ⟨rfl, rfl⟩
    | _ => exact absurd tree.symm (s.ne_tree_of_closed rfl)
  · intro last ts ts' tree tokens
    simp only [Derivation.tokens, List.append_assoc] at tokens
    obtain ⟨-, rest⟩ := determined last _ _ trivial trivial tree tokens
    exact ⟨semi, rest.symm⟩

theorem Determined.braces (opening : Span) {body : Derivation .statements} (closing : Span)
    (determined : body.Determined) : (braces opening body closing).Determined := by
  intro d' ts ts' _ _ tree tokens
  have noSemi (span : Span) (us : List Located) :
      Phrase.statements.AllowsAfter (markAt .rbrace span :: us) := by
    intro semi vs same
    cases same
  cases d' with
  | braces opening' body' closing' =>
      simp only [Derivation.tokens, List.cons_append, List.append_assoc] at tokens
      obtain ⟨-, rfl, inside⟩ := markAt_inj tokens
      obtain ⟨-, treeBody⟩ := Block.mk.inj tree
      obtain ⟨rfl, last⟩ := determined body' _ _ (noSemi _ _) (noSemi _ _) treeBody inside
      obtain ⟨-, rfl, rfl⟩ := markAt_inj last
      exact ⟨rfl, rfl⟩

/-! ### Statements that end in a block -/

theorem Determined.block {body : Derivation .block} (determined : body.Determined) :
    (block body).Determined := by
  intro d' ts ts' _ _ tree tokens
  cases d' with
  | block body' =>
      obtain ⟨rfl, rfl⟩ := determined body' ts ts' trivial trivial (Stmt.block.inj tree) tokens
      exact ⟨rfl, rfl⟩
  | ended s' semi' => exact absurd tree (s'.ne_tree_of_closed rfl)
  | _ => cases tree

theorem Determined.ifThen (keyword : Span) {test : Derivation .expression}
    {yes : Derivation .block} (determinedTest : test.Determined) (determined : yes.Determined) :
    (ifThen keyword test yes).Determined := by
  intro d' ts ts' _ _ tree tokens
  cases d' with
  | ifThen keyword' test' yes' =>
      simp only [Derivation.tokens, List.cons_append, List.append_assoc] at tokens
      obtain ⟨rfl, afterIf⟩ := keywordAt_inj tokens
      obtain ⟨-, treeTest, treeYes⟩ := Stmt.ifThen.inj tree
      obtain ⟨rfl, afterTest⟩ := determinedTest test' _ _ trivial trivial treeTest afterIf
      obtain ⟨rfl, rfl⟩ := determined yes' _ _ trivial trivial treeYes afterTest
      exact ⟨rfl, rfl⟩
  | ended s' semi' => exact absurd tree (s'.ne_tree_of_closed rfl)
  | _ => cases tree

theorem Determined.ifElse (keyword : Span) {test : Derivation .expression}
    {yes : Derivation .block} (other : Span) {no : Derivation .block}
    (determinedTest : test.Determined) (determinedYes : yes.Determined)
    (determined : no.Determined) : (ifElse keyword test yes other no).Determined := by
  intro d' ts ts' _ _ tree tokens
  cases d' with
  | ifElse keyword' test' yes' other' no' =>
      simp only [Derivation.tokens, List.cons_append, List.append_assoc] at tokens
      obtain ⟨rfl, afterIf⟩ := keywordAt_inj tokens
      obtain ⟨-, treeTest, treeYes, treeNo⟩ := Stmt.ifElse.inj tree
      obtain ⟨rfl, afterTest⟩ := determinedTest test' _ _ trivial trivial treeTest afterIf
      obtain ⟨rfl, afterYes⟩ := determinedYes yes' _ _ trivial trivial treeYes afterTest
      obtain ⟨rfl, afterElse⟩ := keywordAt_inj afterYes
      obtain ⟨rfl, rfl⟩ := determined no' _ _ trivial trivial treeNo afterElse
      exact ⟨rfl, rfl⟩
  | ended s' semi' => exact absurd tree (s'.ne_tree_of_closed rfl)
  | _ => cases tree

theorem Determined.whileTrue (keyword : Span) {body : Derivation .block}
    (determined : body.Determined) : (whileTrue keyword body).Determined := by
  intro d' ts ts' _ _ tree tokens
  cases d' with
  | whileTrue keyword' body' =>
      simp only [Derivation.tokens, List.cons_append] at tokens
      obtain ⟨rfl, afterWhile⟩ := keywordAt_inj tokens
      obtain ⟨-, -, treeBody⟩ := Stmt.whileLoop.inj tree
      obtain ⟨rfl, rfl⟩ := determined body' _ _ trivial trivial treeBody afterWhile
      exact ⟨rfl, rfl⟩
  | whileTest keyword' test' body' => exact absurd (Stmt.whileLoop.inj tree).2.1 nofun
  | ended s' semi' => exact absurd tree (s'.ne_tree_of_closed rfl)
  | _ => cases tree

theorem Determined.whileTest (keyword : Span) {test : Derivation .expression}
    {body : Derivation .block} (determinedTest : test.Determined) (determined : body.Determined) :
    (whileTest keyword test body).Determined := by
  intro d' ts ts' _ _ tree tokens
  cases d' with
  | whileTest keyword' test' body' =>
      simp only [Derivation.tokens, List.cons_append, List.append_assoc] at tokens
      obtain ⟨rfl, afterWhile⟩ := keywordAt_inj tokens
      obtain ⟨-, treeTest, treeBody⟩ := Stmt.whileLoop.inj tree
      obtain ⟨rfl, afterTest⟩ :=
        determinedTest test' _ _ trivial trivial (Option.some.inj treeTest) afterWhile
      obtain ⟨rfl, rfl⟩ := determined body' _ _ trivial trivial treeBody afterTest
      exact ⟨rfl, rfl⟩
  | whileTrue keyword' body' => exact absurd (Stmt.whileLoop.inj tree).2.1 nofun
  | ended s' semi' => exact absurd tree (s'.ne_tree_of_closed rfl)
  | _ => cases tree

theorem Determined.forTo (keyword : Span) (mutable : Option Span) (w : Word) (eq : Span)
    {lower : Derivation .expression} (till : Span) {upper : Derivation .expression}
    {body : Derivation .block} (determinedLower : lower.Determined)
    (determinedUpper : upper.Determined) (determined : body.Determined) :
    (forTo keyword mutable w eq lower till upper body).Determined := by
  intro d' ts ts' _ _ tree tokens
  cases d' with
  | forTo keyword' mutable' w' eq' lower' to' upper' body' =>
      simp only [Derivation.tokens, List.cons_append, List.append_assoc] at tokens
      obtain ⟨rfl, afterFor⟩ := keywordAt_inj tokens
      obtain ⟨rfl, rfl, afterName⟩ := mutTokens_inj afterFor
      obtain ⟨-, rfl, afterEq⟩ := markAt_inj afterName
      obtain ⟨-, -, -, treeLower, treeUpper, treeBody⟩ := Stmt.forTo.inj tree
      obtain ⟨rfl, afterLower⟩ := determinedLower lower' _ _ trivial trivial treeLower afterEq
      obtain ⟨rfl, afterTo⟩ := keywordAt_inj afterLower
      obtain ⟨rfl, afterUpper⟩ := determinedUpper upper' _ _ trivial trivial treeUpper afterTo
      obtain ⟨rfl, rfl⟩ := determined body' _ _ trivial trivial treeBody afterUpper
      exact ⟨rfl, rfl⟩
  | ended s' semi' => exact absurd tree (s'.ne_tree_of_closed rfl)
  | _ => cases tree

/-! ### Open statements -/

theorem Determined.var (keyword : Span) (mutable : Option Span) (w : Word)
    (ty : Option (Span × Word)) (eq : Span) {init : Derivation .expression}
    (determined : init.Determined) : (var keyword mutable w ty eq init).Determined := by
  intro d' ts ts' _ _ tree tokens
  cases d' with
  | var keyword' mutable' w' ty' eq' init' =>
      simp only [Derivation.tokens, List.cons_append, List.append_assoc] at tokens
      obtain ⟨rfl, afterVar⟩ := keywordAt_inj tokens
      obtain ⟨rfl, rfl, afterName⟩ := mutTokens_inj afterVar
      obtain ⟨rfl, rfl, afterEq⟩ := typeTokens_inj afterName
      obtain ⟨-, -, -, -, treeInit⟩ := Stmt.var.inj tree
      obtain ⟨rfl, rfl⟩ := determined init' _ _ trivial trivial treeInit afterEq
      exact ⟨rfl, rfl⟩
  | _ => cases tree

theorem Determined.doWhile (keyword : Span) {body : Derivation .block} (other : Span)
    {test : Derivation .expression} (determined : body.Determined)
    (determinedTest : test.Determined) : (doWhile keyword body other test).Determined := by
  intro d' ts ts' _ _ tree tokens
  cases d' with
  | doWhile keyword' body' other' test' =>
      simp only [Derivation.tokens, List.cons_append, List.append_assoc] at tokens
      obtain ⟨rfl, afterDo⟩ := keywordAt_inj tokens
      obtain ⟨-, treeBody, treeTest⟩ := Stmt.doWhile.inj tree
      obtain ⟨rfl, afterBody⟩ := determined body' _ _ trivial trivial treeBody afterDo
      obtain ⟨rfl, afterWhile⟩ := keywordAt_inj afterBody
      obtain ⟨rfl, rfl⟩ := determinedTest test' _ _ trivial trivial treeTest afterWhile
      exact ⟨rfl, rfl⟩
  | _ => cases tree

theorem Determined.expr {e : Derivation .expression} (determined : e.Determined) :
    (expr e).Determined := by
  intro d' ts ts' _ _ tree tokens
  cases d' with
  | expr e' =>
      obtain ⟨rfl, rfl⟩ := determined e' _ _ trivial trivial (Stmt.expr.inj tree) tokens
      exact ⟨rfl, rfl⟩
  | _ => cases tree

/-! ### Expressions -/

theorem Determined.assign (target : Word) (eq : Span) {value : Derivation .expression}
    (determined : value.Determined) : (assign target eq value).Determined := by
  intro d' ts ts' _ _ tree tokens
  cases d' with
  | assign target' eq' value' =>
      obtain ⟨rfl, afterTarget⟩ := Word.token_inj tokens
      obtain ⟨-, rfl, afterEq⟩ := markAt_inj afterTarget
      obtain ⟨-, -, treeValue⟩ := Expr.assign.inj tree
      obtain ⟨rfl, rfl⟩ := determined value' _ _ trivial trivial treeValue afterEq
      exact ⟨rfl, rfl⟩
  | compound target' m' op' listed' opSpan' value' =>
      obtain ⟨-, afterTarget⟩ := Word.token_inj tokens
      obtain ⟨rfl, -, -⟩ := markAt_inj afterTarget
      cases mem_compoundMarks.1 listed'
  | operation e' => exact absurd tree.symm e'.tree_ne_assign

theorem Determined.compound (target : Word) {m : Mark} {op : BinaryOp}
    (listed : (m, op) ∈ compoundMarks) (opSpan : Span) {value : Derivation .expression}
    (determined : value.Determined) : (compound target m op listed opSpan value).Determined := by
  intro d' ts ts' _ _ tree tokens
  cases d' with
  | assign target' eq' value' =>
      obtain ⟨-, afterTarget⟩ := Word.token_inj tokens
      obtain ⟨rfl, -, -⟩ := markAt_inj afterTarget
      cases mem_compoundMarks.1 listed
  | compound target' m' op' listed' opSpan' value' =>
      obtain ⟨rfl, afterTarget⟩ := Word.token_inj tokens
      obtain ⟨rfl, rfl, afterMark⟩ := markAt_inj afterTarget
      obtain ⟨-, -, treeBinary⟩ := Expr.assign.inj tree
      obtain ⟨-, -, rfl, -, treeValue⟩ := Expr.binary.inj treeBinary
      obtain ⟨rfl, rfl⟩ := determined value' _ _ trivial trivial treeValue afterMark
      exact ⟨rfl, rfl⟩
  | operation e' => exact absurd tree.symm e'.tree_ne_assign

theorem Determined.operation {e : Derivation (.operand 1)} (determined : e.Determined) :
    (operation e).Determined := by
  intro d' ts ts' _ _ tree tokens
  cases d' with
  | operation e' =>
      obtain ⟨rfl, rfl⟩ := determined e' _ _ trivial trivial tree tokens
      exact ⟨rfl, rfl⟩
  | _ => exact absurd tree e.tree_ne_assign

theorem Determined.binary {level : Nat} {left : Derivation (.operand level)} {m : Mark}
    {op : BinaryOp} (listed : (m, op) ∈ binaryMarks level) (opSpan : Span)
    {right : Derivation (.operand (level + 1))} (determinedLeft : left.Determined)
    (determined : right.Determined) : (binary left m op listed opSpan right).Determined := by
  intro d' ts ts' _ _ tree tokens
  cases d' with
  | binary left' m' op' listed' opSpan' right' =>
      simp only [Derivation.tokens, List.cons_append, List.append_assoc] at tokens
      obtain ⟨-, treeLeft, rfl, -, treeRight⟩ := Expr.binary.inj tree
      obtain ⟨rfl, afterLeft⟩ := determinedLeft left' _ _ trivial trivial treeLeft tokens
      obtain ⟨rfl, rfl, afterMark⟩ := markAt_inj afterLeft
      obtain ⟨rfl, rfl⟩ := determined right' _ _ trivial trivial treeRight afterMark
      exact ⟨rfl, rfl⟩
  | tighter loose e' =>
      have tight := e'.le_tightness rfl
      rw [show e'.tree = _ from tree.symm] at tight
      have tier := (of_mem_binaryMarks listed).2
      simp only [Derivation.tree, Expr.tightness] at tight
      omega
  | _ => cases tree

/-- An operand with an operator of its level is no tighter one. -/
theorem Determined.tighter {level : Nat} (loose : level < 14) {e : Derivation (.operand (level + 1))}
    (determined : e.Determined) : (tighter loose e).Determined := by
  intro d' ts ts' _ _ tree tokens
  have tight := e.le_tightness rfl
  cases d' with
  | tighter loose' e' =>
      obtain ⟨rfl, rfl⟩ := determined e' _ _ trivial trivial tree tokens
      exact ⟨rfl, rfl⟩
  | binary left' m' op' listed' opSpan' right' =>
      rw [show e.tree = _ from tree] at tight
      have tier := (of_mem_binaryMarks listed').2
      simp only [Derivation.tree, Expr.tightness] at tight
      omega
  | unary m' op' listed' opSpan' operand' =>
      rw [show e.tree = _ from tree] at tight
      simp [Derivation.tree, Expr.tightness, (mem_prefixMarks.1 listed').2] at tight
  | step m' op' listed' opSpan' operand' =>
      rw [show e.tree = _ from tree] at tight
      simp [Derivation.tree, Expr.tightness, (mem_stepMarks.1 listed').2] at tight
  | _ => exact absurd loose (by decide)

theorem Determined.unary (m : Mark) (op : UnaryOp) (listed : (m, op) ∈ prefixMarks) (opSpan : Span)
    {operand : Derivation (.operand 12)} (determined : operand.Determined) :
    (unary m op listed opSpan operand).Determined := by
  intro d' ts ts' _ _ tree tokens
  cases d' with
  | unary m' op' listed' opSpan' operand' =>
      obtain ⟨rfl, rfl, afterMark⟩ := markAt_inj tokens
      obtain ⟨-, rfl, -, treeOperand⟩ := Expr.unary.inj tree
      obtain ⟨rfl, rfl⟩ := determined operand' _ _ trivial trivial treeOperand afterMark
      exact ⟨rfl, rfl⟩
  | tighter loose e' =>
      have tight := e'.le_tightness rfl
      rw [show e'.tree = _ from tree.symm] at tight
      simp [Derivation.tree, Expr.tightness, (mem_prefixMarks.1 listed).2] at tight
  | _ => cases tree

theorem Determined.step (m : Mark) (op : UnaryOp) (listed : (m, op) ∈ stepMarks) (opSpan : Span)
    {operand : Derivation (.operand 13)} (determined : operand.Determined) :
    (step m op listed opSpan operand).Determined := by
  intro d' ts ts' _ _ tree tokens
  cases d' with
  | step m' op' listed' opSpan' operand' =>
      obtain ⟨rfl, rfl, afterMark⟩ := markAt_inj tokens
      obtain ⟨-, rfl, -, treeOperand⟩ := Expr.unary.inj tree
      obtain ⟨rfl, rfl⟩ := determined operand' _ _ trivial trivial treeOperand afterMark
      exact ⟨rfl, rfl⟩
  | tighter loose e' =>
      have tight := e'.le_tightness rfl
      rw [show e'.tree = _ from tree.symm] at tight
      simp [Derivation.tree, Expr.tightness, (mem_stepMarks.1 listed).2] at tight
  | _ => cases tree

/-! ### Operands without operators -/

theorem determined_literal (value : Literal) (span : Span) : (literal value span).Determined := by
  intro d' ts ts' _ _ tree tokens
  cases d' with
  | literal value' span' =>
      obtain ⟨rfl, rfl⟩ := Expr.literal.inj tree
      exact ⟨rfl, List.append_cancel_left tokens⟩
  | tighter loose e' => exact absurd loose (by decide)
  | binary left' m' op' listed' opSpan' right' => cases listed'
  | _ => cases tree

theorem determined_name (w : Word) : (name w).Determined := by
  intro d' ts ts' _ _ tree tokens
  cases d' with
  | name w' =>
      obtain ⟨rfl, rfl⟩ := Word.token_inj tokens
      exact ⟨rfl, rfl⟩
  | tighter loose e' => exact absurd loose (by decide)
  | binary left' m' op' listed' opSpan' right' => cases listed'
  | _ => cases tree

theorem determined_callBare (callee : Word) (opening closing : Span) :
    (callBare callee opening closing).Determined := by
  intro d' ts ts' _ _ tree tokens
  cases d' with
  | callBare callee' opening' closing' =>
      obtain ⟨rfl, afterCallee⟩ := Word.token_inj tokens
      obtain ⟨-, rfl, afterOpening⟩ := markAt_inj afterCallee
      obtain ⟨-, rfl, rfl⟩ := markAt_inj afterOpening
      exact ⟨rfl, rfl⟩
  | call callee' opening' args' closing' =>
      exact absurd (Expr.call.inj tree).2.2.symm args'.arguments_ne_nil
  | tighter loose e' => exact absurd loose (by decide)
  | binary left' m' op' listed' opSpan' right' => cases listed'
  | _ => cases tree

theorem Determined.call (callee : Word) (opening : Span) {args : Derivation .arguments}
    (closing : Span) (determined : args.Determined) :
    (call callee opening args closing).Determined := by
  intro d' ts ts' _ _ tree tokens
  cases d' with
  | call callee' opening' args' closing' =>
      simp only [Derivation.tokens, List.cons_append, List.append_assoc] at tokens
      obtain ⟨rfl, afterCallee⟩ := Word.token_inj tokens
      obtain ⟨-, rfl, afterOpening⟩ := markAt_inj afterCallee
      obtain ⟨-, -, treeArgs⟩ := Expr.call.inj tree
      obtain ⟨rfl, afterArgs⟩ := determined args' _ _ trivial trivial treeArgs afterOpening
      obtain ⟨-, rfl, rfl⟩ := markAt_inj afterArgs
      exact ⟨rfl, rfl⟩
  | callBare callee' opening' closing' =>
      exact absurd (Expr.call.inj tree).2.2 args.arguments_ne_nil
  | tighter loose e' => exact absurd loose (by decide)
  | binary left' m' op' listed' opSpan' right' => cases listed'
  | _ => cases tree

theorem Determined.paren (opening : Span) {e : Derivation .expression} (closing : Span)
    (determined : e.Determined) : (paren opening e closing).Determined := by
  intro d' ts ts' _ _ tree tokens
  cases d' with
  | paren opening' e' closing' =>
      simp only [Derivation.tokens, List.cons_append, List.append_assoc] at tokens
      obtain ⟨-, rfl, afterOpening⟩ := markAt_inj tokens
      obtain ⟨-, treeInner⟩ := Expr.paren.inj tree
      obtain ⟨rfl, afterInner⟩ := determined e' _ _ trivial trivial treeInner afterOpening
      obtain ⟨-, rfl, rfl⟩ := markAt_inj afterInner
      exact ⟨rfl, rfl⟩
  | tighter loose e' => exact absurd loose (by decide)
  | binary left' m' op' listed' opSpan' right' => cases listed'
  | _ => cases tree

theorem Determined.one {e : Derivation .expression} (determined : e.Determined) :
    (one e).Determined := by
  intro d' ts ts' _ _ tree tokens
  cases d' with
  | one e' =>
      obtain ⟨rfl, rfl⟩ := determined e' _ _ trivial trivial (List.singleton_inj.1 tree) tokens
      exact ⟨rfl, rfl⟩
  | another args' comma' e' =>
      have trees : [] ++ [e.tree] = args'.tree ++ [e'.tree] := tree
      exact absurd (List.append_inj' trees rfl).1.symm args'.arguments_ne_nil

theorem Determined.another {args : Derivation .arguments} (comma : Span) {e : Derivation .expression}
    (determinedArgs : args.Determined) (determined : e.Determined) :
    (another args comma e).Determined := by
  intro d' ts ts' _ _ tree tokens
  cases d' with
  | one e' =>
      have trees : args.tree ++ [e.tree] = [] ++ [e'.tree] := tree
      exact absurd (List.append_inj' trees rfl).1 args.arguments_ne_nil
  | another args' comma' e' =>
      simp only [Derivation.tokens, List.cons_append, List.append_assoc] at tokens
      obtain ⟨treeArgs, treeLast⟩ := List.append_inj' tree rfl
      obtain ⟨rfl, afterArgs⟩ := determinedArgs args' _ _ trivial trivial treeArgs tokens
      obtain ⟨-, rfl, afterComma⟩ := markAt_inj afterArgs
      obtain ⟨rfl, rfl⟩ := determined e' _ _ trivial trivial (List.singleton_inj.1 treeLast) afterComma
      exact ⟨rfl, rfl⟩

/-! ## Programs -/

/-- A derivation is told by its tree and its tokens. -/
theorem determined {p : Phrase} (d : Derivation p) : d.Determined ∧ d.Separated := by
  induction d with
  | closedOnly body ih => exact ⟨ih.1.closedOnly ih.2, trivial⟩
  | openLast body last ihBody ihLast => exact ⟨ihBody.1.openLast ihLast.1, trivial⟩
  | nothing => exact determined_nothing
  | append body next ihBody ihNext => exact ihBody.1.append ihNext.1 ihNext.2
  | ended s semi ih => exact ih.1.ended semi
  | block body ih => exact ⟨ih.1.block, separated_of_closed rfl⟩
  | ifThen keyword test yes ihTest ihYes =>
      exact ⟨ihTest.1.ifThen keyword ihYes.1, separated_of_closed rfl⟩
  | ifElse keyword test yes other no ihTest ihYes ihNo =>
      exact ⟨ihTest.1.ifElse keyword other ihYes.1 ihNo.1, separated_of_closed rfl⟩
  | whileTrue keyword body ih => exact ⟨ih.1.whileTrue keyword, separated_of_closed rfl⟩
  | whileTest keyword test body ihTest ih =>
      exact ⟨ihTest.1.whileTest keyword ih.1, separated_of_closed rfl⟩
  | forTo keyword mutable w eq lower till upper body ihLower ihUpper ih =>
      exact ⟨ihLower.1.forTo keyword mutable w eq till ihUpper.1 ih.1, separated_of_closed rfl⟩
  | var keyword mutable w ty eq init ih => exact ⟨ih.1.var keyword mutable w ty eq, trivial⟩
  | doWhile keyword body other test ihBody ihTest =>
      exact ⟨ihBody.1.doWhile keyword other ihTest.1, trivial⟩
  | expr e ih => exact ⟨ih.1.expr, trivial⟩
  | braces opening body closing ih => exact ⟨ih.1.braces opening closing, trivial⟩
  | assign target eq value ih => exact ⟨ih.1.assign target eq, trivial⟩
  | compound target m op listed opSpan value ih =>
      exact ⟨ih.1.compound target listed opSpan, trivial⟩
  | operation e ih => exact ⟨ih.1.operation, trivial⟩
  | binary left m op listed opSpan right ihLeft ihRight =>
      exact ⟨ihLeft.1.binary listed opSpan ihRight.1, trivial⟩
  | tighter loose e ih => exact ⟨ih.1.tighter loose, trivial⟩
  | unary m op listed opSpan operand ih => exact ⟨ih.1.unary m op listed opSpan, trivial⟩
  | step m op listed opSpan operand ih => exact ⟨ih.1.step m op listed opSpan, trivial⟩
  | literal value span => exact ⟨determined_literal value span, trivial⟩
  | name w => exact ⟨determined_name w, trivial⟩
  | callBare callee opening closing => exact ⟨determined_callBare callee opening closing, trivial⟩
  | call callee opening args closing ih => exact ⟨ih.1.call callee opening closing, trivial⟩
  | paren opening e closing ih => exact ⟨ih.1.paren opening closing, trivial⟩
  | one e ih => exact ⟨ih.1.one, trivial⟩
  | another args comma e ihArgs ih => exact ⟨ihArgs.1.another comma ih.1, trivial⟩

/-- The grammar is unambiguous: the tokens of a program tell its derivation. -/
theorem unambiguous {d d' : Derivation .statements} (tokens : d.tokens = d'.tokens) : d = d' := by
  obtain ⟨c, run, done⟩ := d.run?_program
  obtain ⟨c', run', done'⟩ := d'.run?_program
  rw [tokens, run'] at run
  cases run
  have tree : d.tree = d'.tree := Option.some.inj (done.symm.trans done')
  exact (d.determined.1 d' [] [] nofun nofun tree (by rw [tokens])).1

end Derivation

/-- Tokens are read as a program without an error exactly if the grammar derives them, and what is
read is the tree of the derivation, of which there is one. -/
theorem parse_ok_iff_derives (size : Nat) (tokens : List Located) (p : Program) :
    (parse size tokens = .ok p ↔
      ∃ d : Derivation .statements, d.tokens = tokens ∧ p = ⟨d.tree, .point size⟩) ∧
    ∀ d d' : Derivation .statements, d.tokens = tokens → d'.tokens = tokens → d = d' := by
  refine ⟨?_, fun d d' same same' => Derivation.unambiguous (same.trans same'.symm)⟩
  rw [parse_eq_ok_iff]
  constructor
  · rintro ⟨c, run, done, eof⟩
    have reads := Config.reads_run? Config.reads_start run
    obtain ⟨d, same, tree⟩ := Config.derives_finish? reads done
    obtain ⟨statements, stop⟩ := p
    refine ⟨d, same, ?_⟩
    rw [tree]
    exact congrArg (Program.mk statements) eof
  · rintro ⟨d, rfl, rfl⟩
    obtain ⟨c, run, done⟩ := d.run?_program
    exact ⟨c, run, done, rfl⟩

end ScriptLang.Syntax
