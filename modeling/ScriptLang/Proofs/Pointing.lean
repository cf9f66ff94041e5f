/-
# ScriptLang.Proofs.Pointing -- diagnostics point into the text

A diagnostic has the range that it concerns, and the line and column where that
range starts.  The ranges are those of bad pieces, of tokens and of what trees are
put together from, so each goes forward between two offsets that cut no character
(`Lexer.lexemesFrom_good`, `Syntax.Tree.ofText_placed`).  What is wrong with the
meaning of a program is reported at ranges of its tree (`Bound.bindStmt_placed`).

Line and column count characters.  At an offset that cuts no character they say
everything: the line starts after as many newlines as there are lines before it,
and the column counts the characters from there (`Source.offsetAt_lineCol`).
-/
import ScriptLang.Proofs.Binding
import ScriptLang.Proofs.Placing
import ScriptLang.Session

namespace ScriptLang

set_option autoImplicit false

/-! ## Offsets that cut no character -/

namespace Text

theorem dropBytes_cons (c : Char) (cs : List Char) (n : Nat) :
    dropBytes (c :: cs) (c.utf8Size + n) = dropBytes cs n := by
  obtain ⟨k, size⟩ := Nat.exists_eq_add_of_lt c.utf8Size_pos
  have split : c.utf8Size + n = k + n + 1 := by omega
  rw [split, dropBytes, ← split, Nat.add_sub_cancel_left]

theorem dropBytes_width (front rest : List Char) :
    dropBytes (front ++ rest) (width front) = rest := by
  induction front with
  | nil => rw [width, List.nil_append, dropBytes]
  | cons c cs ih => rw [width, List.cons_append, dropBytes_cons, ih]

theorem charsIn?_cons (c : Char) (cs : List Char) (n : Nat) :
    charsIn? (c :: cs) (c.utf8Size + n) = (charsIn? cs n).map (· + 1) := by
  obtain ⟨k, size⟩ := Nat.exists_eq_add_of_lt c.utf8Size_pos
  have split : c.utf8Size + n = k + n + 1 := by omega
  have fits : c.utf8Size ≤ k + n + 1 := by omega
  rw [split, charsIn?, if_pos fits, ← split, Nat.add_sub_cancel_left]

theorem charsIn?_width (front rest : List Char) :
    charsIn? (front ++ rest) (width front) = some front.length := by
  induction front with
  | nil => rw [width, charsIn?, List.length_nil]
  | cons c cs ih =>
      rw [width, List.cons_append, charsIn?_cons, ih, Option.map_some, List.length_cons]

/-- Whether an offset is where some of the first characters end. -/
def Cuts (cs : List Char) (n : Nat) : Prop := ∃ front rest, cs = front ++ rest ∧ width front = n

end Text

namespace Source

/-- Whether a text can be cut at an offset without cutting a character. -/
def Boundary (s : Source) (n : Nat) : Prop :=
  ∃ front rest : String, s.text = front ++ rest ∧ front.utf8ByteSize = n

theorem boundary_iff {s : Source} {n : Nat} : s.Boundary n ↔ Text.Cuts s.text.toList n := by
  constructor
  · rintro ⟨front, rest, same, size⟩
    refine ⟨front.toList, rest.toList, ?_, ?_⟩
    · rw [same, String.toList_append]
    · rw [Text.width_toList, size]
  · rintro ⟨front, rest, same, size⟩
    refine ⟨String.ofList front, String.ofList rest, ?_, ?_⟩
    · rw [← String.ofList_append, ← same, String.ofList_toList]
    · rw [← Text.width_eq_utf8ByteSize, size]

theorem Boundary.le_size {s : Source} {n : Nat} (here : s.Boundary n) : n ≤ s.size := by
  obtain ⟨front, rest, same, rfl⟩ := here
  rw [size, same, String.utf8ByteSize_append]
  exact Nat.le_add_right _ _

/-! ## Lines and columns -/

theorem startsAfter_append (offset : Nat) (xs ys : List Char) :
    startsAfter offset (xs ++ ys) =
      startsAfter offset xs ++ startsAfter (offset + Text.width xs) ys := by
  induction xs generalizing offset with
  | nil => rfl
  | cons c cs ih =>
      rw [List.cons_append, startsAfter, startsAfter, Text.width, ← Nat.add_assoc]
      split
      · rw [ih, List.cons_append]
      · exact ih _

/-- A line after the first starts after the start of the text and by its end. -/
theorem startsAfter_bounds (offset : Nat) (cs : List Char) :
    ∀ n ∈ startsAfter offset cs, offset < n ∧ n ≤ offset + Text.width cs := by
  induction cs generalizing offset with
  | nil => exact List.forall_mem_nil _
  | cons c cs ih =>
      have size := c.utf8Size_pos
      have later : ∀ n ∈ startsAfter (offset + c.utf8Size) cs,
          offset < n ∧ n ≤ offset + (c.utf8Size + Text.width cs) := by
        intro n member
        have bounds := ih _ n member
        omega
      rw [startsAfter, Text.width]
      split
      · exact List.forall_mem_cons.2 ⟨by omega, later⟩
      · exact later

/-- The last line starts where some of the characters end. -/
theorem exists_lastLine (offset : Nat) (cs : List Char) :
    ∃ before line, cs = before ++ line ∧
      (startsAfter offset cs).getLastD offset = offset + Text.width before := by
  induction cs generalizing offset with
  | nil => exact ⟨[], [], rfl, rfl⟩
  | cons c cs ih =>
      obtain ⟨before, line, same, last⟩ := ih (offset + c.utf8Size)
      rw [startsAfter]
      split
      · refine ⟨c :: before, line, by rw [same, List.cons_append], ?_⟩
        rw [List.getLastD_cons, last, Text.width, Nat.add_assoc]
      · -- without a newline in the rest the line starts at the offset
        cases rest : startsAfter (offset + c.utf8Size) cs with
        | nil => exact ⟨[], c :: cs, rfl, rfl⟩
        | cons n ns =>
            refine ⟨c :: before, line, by rw [same, List.cons_append], ?_⟩
            rw [rest, List.getLastD_cons] at last
            rw [List.getLastD_cons, last, Text.width, Nat.add_assoc]

variable {s : Source}

theorem lineStarts_eq {front rest : List Char} (same : s.text.toList = front ++ rest) :
    s.lineStarts = 0 :: startsAfter 0 front ++ startsAfter (Text.width front) rest := by
  rw [lineStarts, same, startsAfter_append, Nat.zero_add, List.cons_append]

/-- The lines that start by the end of the front of a text are the lines of the front. -/
theorem takeWhile_lineStarts {front rest : List Char} (same : s.text.toList = front ++ rest) :
    s.lineStarts.takeWhile (· ≤ Text.width front) = 0 :: startsAfter 0 front := by
  have early : ∀ n ∈ 0 :: startsAfter 0 front, decide (n ≤ Text.width front) = true := by
    refine List.forall_mem_cons.2 ⟨decide_eq_true (Nat.zero_le _), fun n member => ?_⟩
    have bounds := startsAfter_bounds 0 front n member
    exact decide_eq_true (by omega)
  have late : (startsAfter (Text.width front) rest).takeWhile (· ≤ Text.width front) = [] := by
    have bounds := startsAfter_bounds (Text.width front) rest
    cases starts : startsAfter (Text.width front) rest with
    | nil => rfl
    | cons n ns =>
        rw [starts] at bounds
        have after := (bounds n List.mem_cons_self).1
        exact List.takeWhile_cons_of_neg (by simpa using after)
  rw [lineStarts_eq same, List.takeWhile_append_of_pos early, late, List.append_nil]

theorem getD_length_cons_append (first : Nat) (starts more : List Nat) :
    (first :: starts ++ more).getD starts.length 0 = starts.getLastD first := by
  induction starts generalizing first with
  | nil => rfl
  | cons n ns ih => rw [List.getLastD_cons, ← ih n]; rfl

/-- The line of an offset starts where some of the characters before the offset end, and its column
counts the others. -/
theorem exists_lineCol {n : Nat} (here : s.Boundary n) :
    ∃ before line rest, s.text.toList = before ++ (line ++ rest) ∧
      n = Text.width before + Text.width line ∧
      s.lineStarts.getD (s.lineIndex n) 0 = Text.width before ∧
      s.lineCol n = (s.lineIndex n + 1, line.length + 1) := by
  obtain ⟨front, rest, same, rfl⟩ := boundary_iff.1 here
  obtain ⟨before, line, split, last⟩ := exists_lastLine 0 front
  have width : Text.width front = Text.width before + Text.width line := by
    rw [split, Text.width_append]
  have whole : s.text.toList = before ++ (line ++ rest) := by
    rw [same, split, List.append_assoc]
  have index : s.lineIndex (Text.width front) = (startsAfter 0 front).length := by
    rw [lineIndex, takeWhile_lineStarts same, List.length_cons, Nat.add_sub_cancel]
  have start : s.lineStarts.getD (s.lineIndex (Text.width front)) 0 = Text.width before := by
    rw [index, lineStarts_eq same, getD_length_cons_append, last, Nat.zero_add]
  refine ⟨before, line, rest, whole, width, start, ?_⟩
  unfold lineCol
  dsimp only
  rw [Nat.min_eq_left here.le_size, start, whole, Text.dropBytes_width, width,
    Nat.add_sub_cancel_left, Text.charsIn?_width, Option.getD_some]

/-- The offset of a line and a column that both count from one. -/
def offsetAt (s : Source) (line column : Nat) : Nat :=
  let start := s.lineStarts.getD (line - 1) 0
  start + Text.width ((Text.dropBytes s.text.toList start).take (column - 1))

/-- An offset that cuts no character is the offset of its line and column. -/
theorem offsetAt_lineCol {n : Nat} (here : s.Boundary n) :
    s.offsetAt (s.lineCol n).1 (s.lineCol n).2 = n := by
  obtain ⟨before, line, rest, whole, width, start, position⟩ := exists_lineCol here
  rw [position, offsetAt]
  dsimp only
  rw [Nat.add_sub_cancel, start, Nat.add_sub_cancel, whole, Text.dropBytes_width,
    List.take_left, width]

end Source

/-! ## Lexemes -/

/-- A match ends where characters end. -/
theorem Lexer.stopOf_width (front : List Char) (c : Char) (cs : List Char) :
    Lexer.stopOf (Text.width front) c cs =
      Text.width (front ++ c :: cs.take (Lexer.scan c cs).more) := by
  rw [Lexer.stopOf, Text.width_append, Text.width, Nat.add_assoc]

/-- The range of a lexeme cuts no character. -/
theorem Lexer.lexemesFrom_good (front rest : List Char) :
    ∀ l ∈ Lexer.lexemesFrom (Text.width front) rest, l.span.Good (Text.Cuts (front ++ rest)) := by
  induction rest using matches_induction generalizing front with
  | nil =>
      rw [lexemesFrom]
      exact List.forall_mem_nil _
  | cons c cs ih =>
      have whole : front ++ c :: cs =
          (front ++ c :: cs.take (scan c cs).more) ++ cs.drop (scan c cs).more := by
        rw [List.append_assoc, List.cons_append, List.take_append_drop]
      rw [lexemesFrom_cons]
      refine List.forall_mem_append.2 ⟨?_, ?_⟩
      · rintro l member
        obtain ⟨piece, -, rfl⟩ := List.mem_map.1 member
        exact ⟨Nat.le_of_lt (lt_stopOf _ c cs), ⟨front, c :: cs, rfl, rfl⟩,
          ⟨_, _, whole, (stopOf_width front c cs).symm⟩⟩
      · rw [stopOf_width, whole]
        exact ih (front ++ c :: cs.take (scan c cs).more)

theorem Lexeme.all_good (text : String) :
    ∀ l ∈ Lexeme.all text, l.span.Good (Source.mk text).Boundary := by
  intro l member
  obtain ⟨le, start, stop⟩ := Lexer.lexemesFrom_good [] text.toList l member
  exact ⟨le, Source.boundary_iff.2 start, Source.boundary_iff.2 stop⟩

theorem Lexeme.span_of_bad? {l : Lexeme} {bad : String × Span} (found : l.bad? = some bad) :
    bad.2 = l.span := by
  unfold Lexeme.bad? at found
  split at found <;> cases found
  rfl

namespace Syntax

theorem tokensOf_good (text : String) :
    ∀ t ∈ tokensOf text, t.span.Good (Source.mk text).Boundary := by
  intro t member
  obtain ⟨l, member, found⟩ := List.mem_filterMap.1 member
  rw [span_of_token? found]
  exact Lexeme.all_good text l member

end Syntax

namespace Bound

variable {B : Nat → Prop}

/-! ## Reports -/

/-- Whether all problems of a check are at ranges that go forward. -/
def Checked.Placed (B : Nat → Prop) {α : Type} (c : Checked α) : Prop :=
  ∀ p ∈ c.problems, p.span.Good B

namespace Checked.Placed

variable {α β : Type}

theorem pure (a : α) : Placed B (Pure.pure a : Checked α) :=
  List.forall_mem_nil _

theorem bind {c : Checked α} {k : α → Checked β} (first : c.Placed B) (next : ∀ a, (k a).Placed B) :
    (c >>= k).Placed B :=
  List.forall_mem_append.2 ⟨first, next c.value⟩

theorem report {span : Span} (good : span.Good B) (cause : Cause) :
    (Checked.report span cause).Placed B :=
  List.forall_mem_singleton.2 good

theorem reportUnknown {name : Syntax.Name} (good : name.span.Good B) (scope : Scope)
    (cause : Cause) : (Bound.reportUnknown scope name cause).Placed B :=
  List.forall_mem_singleton.2 good

end Checked.Placed

theorem requireValue_placed {span : Span} (good : span.Good B) (e : Expr) :
    (requireValue span e).Placed B := by
  unfold requireValue
  split
  · exact (Checked.Placed.report good _).bind fun _ => .pure _
  · exact .pure e

theorem convertTo_placed {span : Span} (good : span.Good B) (e : Expr) (ty : Ty) (cast : Bool) :
    (convertTo e span ty cast).Placed B := by
  unfold convertTo
  dsimp only
  split
  · split
    · exact (Checked.Placed.report good _).bind fun _ => .pure _
    · exact .pure _
  · split
    · exact (Checked.Placed.report good _).bind fun _ => .pure _
    · exact .pure _

theorem resolveName_placed {name : Syntax.Name} (good : name.span.Good B) (scope : Scope) :
    (resolveName scope name).Placed B := by
  unfold resolveName
  split
  · exact .pure _
  · split
    · exact .pure _
    · exact (Checked.Placed.reportUnknown good _ _).bind fun _ => .pure _

theorem stepVariable_placed {span : Span} (good : span.Good B) (op : BinaryOp) (operand : Expr) :
    (stepVariable op operand span).Placed B := by
  unfold stepVariable
  split
  · split
    · exact (Checked.Placed.report good _).bind fun _ => .pure _
    · exact .pure _
  · exact (Checked.Placed.report good _).bind fun _ => .pure _

theorem applyUnary_placed {opSpan span : Span} (goodOp : opSpan.Good B) (good : span.Good B)
    (op : UnaryOp) (operand : Expr) : (applyUnary op opSpan operand span).Placed B := by
  unfold applyUnary
  split
  · exact .pure _
  · split
    · exact (Checked.Placed.report goodOp _).bind fun _ => .pure _
    · split
      · exact stepVariable_placed good .add operand
      · exact stepVariable_placed good .sub operand
      · exact .pure _

theorem applyBinary_placed {opSpan : Span} (good : opSpan.Good B) (left : Expr) (op : BinaryOp)
    (right : Expr) : (applyBinary left op opSpan right).Placed B := by
  unfold applyBinary
  split
  · exact .pure _
  · split
    · exact .pure _
    · exact (Checked.Placed.report good _).bind fun _ => .pure _

theorem assignTo_placed {target : Syntax.Name} {span : Span} (goodTarget : target.span.Good B)
    (good : span.Good B) (scope : Scope) (value : Expr) :
    (assignTo scope target value span).Placed B := by
  unfold assignTo
  split
  · exact .pure _
  · split
    · exact (Checked.Placed.reportUnknown goodTarget _ _).bind fun _ => .pure _
    · rename_i v found
      have assigned := (convertTo_placed good value v.ty false).bind fun e =>
        Checked.Placed.pure (Expr.assign v e)
      split
      · exact (Checked.Placed.report goodTarget _).bind fun _ => assigned
      · exact assigned

theorem convertArg_placed {span : Span} (good : span.Good B) (e : Expr) (p : Parameter) :
    (convertArg span e p).Placed B := by
  unfold convertArg
  split
  · exact .pure e
  · exact convertTo_placed good e p.ty false

theorem convertArgs_placed {spans : List Span} (good : ∀ s ∈ spans, s.Good B) (args : List Expr)
    (ps : List Parameter) : (convertArgs spans args ps).Placed B := by
  induction spans, args, ps using convertArgs_induction with
  | ended spans args ps ended =>
      rw [convertArgs_ended ended]
      exact .pure []
  | more span spans e es p ps ih =>
      obtain ⟨here, good⟩ := List.forall_mem_cons.1 good
      rw [convertArgs_bind]
      apply (convertArg_placed here e p).bind
      intro first
      exact (ih good).bind fun rest => .pure (first :: rest)

/-- Arguments that are too many are reported from the first of them to the last. -/
theorem reportArity_placed {spans : List Span} {span : Span} (good : ∀ s ∈ spans, s.Good B)
    (goodCall : span.Good B) (f : Function) : (reportArity f spans span).Placed B := by
  unfold reportArity
  dsimp only
  split
  · intro problem member
    obtain ⟨parameter, -, rfl⟩ := List.mem_map.1 member
    exact goodCall
  · split
    · exact .pure _
    · rename_i first rest extra
      have goodExtra : ∀ s ∈ first :: rest, s.Good B :=
        fun s member => good s (List.mem_of_mem_drop (extra ▸ member))
      refine .report ((goodExtra first List.mem_cons_self).merge ?_) _
      exact goodExtra (rest.getLastD first) List.getLastD_mem_cons

theorem applyOverloads_placed {callee : Syntax.Name} {spans : List Span} {span : Span}
    (goodCallee : callee.span.Good B) (good : ∀ s ∈ spans, s.Good B) (goodCall : span.Good B)
    (overloads : List Function) (args : List Expr) :
    (applyOverloads overloads callee spans args span).Placed B := by
  unfold applyOverloads
  split
  · exact .pure _
  · split
    · split
      · exact .pure _
      · exact (reportArity_placed good goodCall _).bind fun _ => .pure _
    · split
      · exact (convertArgs_placed good args _).bind fun _ => .pure _
      · split
        · exact (convertArgs_placed good args _).bind fun _ => .pure _
        · exact (Checked.Placed.report goodCallee _).bind fun _ => .pure _

theorem Checked.Placed.value_of {scope : Scope} {e : Syntax.Expr} (good : e.span.Good B)
    (placed : (resolve scope e).Placed B) : (resolveValue scope e).Placed B :=
  placed.bind fun bound => requireValue_placed good bound

theorem resolveArgs_placed {scope : Scope} {args : List Syntax.Expr}
    (each : ∀ e ∈ args, (resolveValue scope e).Placed B) : (resolveArgs scope args).Placed B := by
  rw [resolveArgs_eq]
  intro problem member
  obtain ⟨e, inside, there⟩ := List.mem_flatMap.1 member
  exact each e inside problem there

/-- What is wrong with an expression is reported at ranges of the expression. -/
theorem resolve_placed (scope : Scope) {e : Syntax.Expr} (placed : e.Placed B) :
    (resolve scope e).Placed B := by
  induction e using Syntax.Expr.induction with
  | literal span value =>
      rw [resolve]
      exact .pure _
  | name name =>
      rw [resolve]
      exact resolveName_placed placed scope
  | unary span op opSpan operand ih =>
      obtain ⟨-, goodOp, placed⟩ := placed
      rw [resolve_unary]
      exact ((ih placed).value_of placed.span).bind fun bound =>
        applyUnary_placed goodOp placed.span op bound
  | binary span left op opSpan right ihLeft ihRight =>
      obtain ⟨-, placedLeft, goodOp, placedRight⟩ := placed
      rw [resolve_binary]
      apply ((ihLeft placedLeft).value_of placedLeft.span).bind
      intro boundLeft
      exact ((ihRight placedRight).value_of placedRight.span).bind fun boundRight =>
        applyBinary_placed goodOp boundLeft op boundRight
  | assign span target value ih =>
      obtain ⟨-, goodTarget, placed⟩ := placed
      rw [resolve_assign]
      exact ((ih placed).value_of placed.span).bind fun bound =>
        assignTo_placed goodTarget placed.span scope bound
  | call span callee args ih =>
      obtain ⟨goodCall, goodCallee, placed⟩ := placed
      rw [Syntax.Expr.placedAll_iff] at placed
      have each : ∀ e ∈ args, (resolveValue scope e).Placed B := fun e member =>
        (ih e member (placed e member)).value_of (placed e member).span
      rcases call_cases callee args with ⟨ty, arg, named, rfl⟩ | plain
      · rw [resolve_cast named]
        exact (each arg List.mem_cons_self).bind fun bound =>
          convertTo_placed (placed arg List.mem_cons_self).span bound ty true
      · have good : ∀ s ∈ args.map Syntax.Expr.span, s.Good B :=
          List.forall_mem_map.2 fun e inside => (placed e inside).span
        rw [resolve_plain plain]
        split
        · exact (Checked.Placed.reportUnknown goodCallee _ _).bind fun _ => .pure _
        · exact (resolveArgs_placed each).bind fun bound =>
            applyOverloads_placed goodCallee good goodCall _ bound
  | paren span inner ih =>
      rw [resolve]
      exact ih placed.2

theorem resolveValue_placed (scope : Scope) {e : Syntax.Expr} (placed : e.Placed B) :
    (resolveValue scope e).Placed B :=
  (resolve_placed scope placed).value_of placed.span

theorem resolveTo_placed (scope : Scope) {e : Syntax.Expr} (placed : e.Placed B) (ty : Ty) :
    (resolveTo scope e ty).Placed B :=
  (resolveValue_placed scope placed).bind fun bound => convertTo_placed placed.span bound ty false

/-! ## Statements -/

/-- Whether all problems so far are at ranges that go forward. -/
def Binder.Placed (B : Nat → Prop) (b : Binder) : Prop := ∀ p ∈ b.problems, p.span.Good B

namespace Binder.Placed

variable {b : Binder}

theorem check {α : Type} (placed : b.Placed B) (f : Scope → Checked α)
    (checked : (f b.scope).Placed B) : (b.check f).2.Placed B :=
  List.forall_mem_append.2 ⟨placed, checked⟩

theorem checkTo (placed : b.Placed B) {e : Syntax.Expr} (placedExpr : e.Placed B) (ty : Ty) :
    (b.check (resolveTo · e ty)).2.Placed B :=
  placed.check _ (resolveTo_placed b.scope placedExpr ty)

theorem enter (placed : b.Placed B) : b.enter.Placed B := placed

theorem report (placed : b.Placed B) {span : Span} (good : span.Good B) (cause : Cause) :
    (b.report span cause).Placed B :=
  List.forall_mem_append.2 ⟨placed, List.forall_mem_singleton.2 good⟩

theorem declaredType (placed : b.Placed B) {ty : Option Syntax.Name}
    (good : ∀ t ∈ ty, t.span.Good B) (init : Expr) : (Bound.declaredType b ty init).2.Placed B := by
  cases ty with
  | none => exact placed
  | some written =>
      unfold Bound.declaredType Binder.resolveType
      dsimp only
      split
      · exact placed
      · exact placed.report (good written rfl) _

theorem declare (placed : b.Placed B) {name : Syntax.Name} (good : name.span.Good B)
    (mutable : Bool) (ty : Ty) : (b.declare name mutable ty).2.Placed B := by
  rcases b.declare_cases name mutable ty with ⟨-, eq⟩ | ⟨-, eq⟩ | ⟨-, eq⟩
  · exact eq ▸ placed
  · exact eq ▸ placed.report good _
  · exact eq ▸ placed

end Binder.Placed

theorem bindStmts_placed {body : List Syntax.Stmt}
    (each : ∀ s ∈ body, ∀ b : Binder, s.Placed B → b.Placed B → (bindStmt s b).2.Placed B)
    (placed : ∀ s ∈ body, s.Placed B) {b : Binder} (before : b.Placed B) :
    (bindStmts body b).2.Placed B := by
  induction body generalizing b with
  | nil =>
      rw [bindStmts_nil]
      exact before
  | cons s ss ih =>
      rw [List.forall_mem_cons] at each placed
      rw [bindStmts_cons]
      exact ih each.2 placed.2 (each.1 b placed.1 before)

theorem bindBlock_placed {body : Syntax.Block}
    (each : ∀ s ∈ body.statements, ∀ b : Binder, s.Placed B → b.Placed B →
      (bindStmt s b).2.Placed B)
    (placed : body.Placed B) {b : Binder} (before : b.Placed B) :
    (bindBlock body b).2.Placed B := by
  rw [bindBlock_eq]
  exact bindStmts_placed each placed.statements before

/-- What is wrong with a statement is reported at ranges of the statement. -/
theorem bindStmt_placed (s : Syntax.Stmt) (b : Binder) (placed : s.Placed B) (before : b.Placed B) :
    (bindStmt s b).2.Placed B := by
  induction s using Syntax.Stmt.induction generalizing b with
  | block body ih =>
      rw [bindStmt]
      exact bindBlock_placed ih placed before
  | var span name mutable ty init =>
      obtain ⟨-, goodName, goodTy, placed⟩ := placed
      rw [bindStmt_var]
      have first := before.check (resolveValue · init) (resolveValue_placed b.scope placed)
      have typed := first.declaredType goodTy (b.check (resolveValue · init)).1
      refine Binder.Placed.declare ?_ goodName mutable _
      exact typed.check (fun _ => _) (convertTo_placed placed.span _ _ false)
  | ifThen span test yes ih =>
      obtain ⟨-, placedTest, placedYes⟩ := placed
      rw [bindStmt_ifThen]
      exact bindBlock_placed ih placedYes (before.checkTo placedTest .bool)
  | ifElse span test yes no ihYes ihNo =>
      obtain ⟨-, placedTest, placedYes, placedNo⟩ := placed
      rw [bindStmt_ifElse]
      have first := bindBlock_placed ihYes placedYes (before.checkTo placedTest .bool)
      exact bindBlock_placed ihNo placedNo first
  | whileLoop span test body ih =>
      obtain ⟨-, placedTest, placedBody⟩ := placed
      cases test with
      | none =>
          rw [bindStmt_whileLoop_none]
          exact bindBlock_placed ih placedBody before
      | some test =>
          rw [bindStmt_whileLoop_some]
          exact bindBlock_placed ih placedBody (before.checkTo (placedTest test rfl) .bool)
  | doWhile span body test ih =>
      obtain ⟨-, placedBody, placedTest⟩ := placed
      rw [bindStmt_doWhile]
      exact (bindBlock_placed ih placedBody before).checkTo placedTest .bool
  | forTo span var mutable lower upper body ih =>
      obtain ⟨-, goodVar, placedLower, placedUpper, placedBody⟩ := placed
      rw [bindStmt_forTo]
      have bounds := (before.checkTo placedLower .int).checkTo placedUpper .int
      exact bindBlock_placed ih placedBody (bounds.enter.declare goodVar mutable .int)
  | expr e =>
      rw [bindStmt_expr]
      exact before.check (resolve · e) (resolve_placed b.scope placed)

end Bound

/-! ## Diagnostics -/

/-- Whether a diagnostic points into a text: its range goes forward inside of the text and cuts no
character, and its line and column are those where the range starts and of no other offset that cuts
no character. -/
structure Diagnostic.PointsInto (source : Source) (d : Diagnostic) : Prop where
  start_le : d.span.start ≤ d.span.stop
  stop_le : d.span.stop ≤ source.size
  start : source.Boundary d.span.start
  stop : source.Boundary d.span.stop
  position : (d.line, d.column) = source.lineCol d.span.start
  recovered : source.offsetAt d.line d.column = d.span.start
  unique : ∀ n, source.Boundary n → source.lineCol n = (d.line, d.column) → n = d.span.start

theorem Diagnostic.locate_pointsInto {source : Source} {span : Span}
    (good : span.Good source.Boundary) (severity : Severity) (category : Category)
    (message : String) (help : Option String) :
    (Diagnostic.locate source span severity category message help).PointsInto source where
  start_le := good.le
  stop_le := good.stop.le_size
  start := good.start
  stop := good.stop
  position := rfl
  recovered := Source.offsetAt_lineCol good.start
  unique := by
    intro n here same
    rw [← Source.offsetAt_lineCol here, same]
    exact Source.offsetAt_lineCol good.start

/-- The ranges of a tree cut no character of its text, and neither do its diagnostics. -/
theorem Syntax.Tree.ofText_placed (text : String) :
    (∀ s ∈ (Tree.ofText text).root.statements, s.Placed (Source.mk text).Boundary) ∧
      ∀ d ∈ (Tree.ofText text).diagnostics, d.PointsInto ⟨text⟩ := by
  have zero : (Source.mk text).Boundary 0 := ⟨"", text, String.empty_append.symm, rfl⟩
  obtain ⟨placed, errors⟩ := Reader.read_placed zero (ordered_tokensOf text) (tokensOf_good text)
  refine ⟨placed, fun d member => ?_⟩
  rcases List.mem_append.1 member with lexical | reported
  · obtain ⟨l, inside, found⟩ := List.mem_filterMap.1 lexical
    obtain ⟨bad, piece, rfl⟩ := Option.map_eq_some_iff.1 found
    have good := Lexeme.all_good text l inside
    rw [← Lexeme.span_of_bad? piece] at good
    exact Diagnostic.locate_pointsInto good _ _ _ _
  · obtain ⟨e, inside, rfl⟩ := List.mem_map.1 reported
    exact Diagnostic.locate_pointsInto (errors e inside) _ _ _ _

/-- What is wrong with the meaning of a program points into its text. -/
theorem Bound.bindProgram_pointInto {source : Source} {program : Syntax.Program}
    (placed : ∀ s ∈ program.statements, s.Placed source.Boundary) (nextId : Nat) :
    ∀ d ∈ (bindProgram [] nextId source program).1.diagnostics, d.PointsInto source := by
  intro d member
  rcases List.mem_append.1 member with own | inherited
  case inr => nomatch inherited
  obtain ⟨problem, inside, rfl⟩ := List.mem_map.1 own
  have start : Binder.Placed source.Boundary ⟨(scopeAfter []).push, nextId, []⟩ :=
  List.forall_mem_nil _
  have bound := bindStmts_placed (fun s _ => bindStmt_placed s) placed start
  exact Diagnostic.locate_pointsInto (bound problem inside) _ _ _ _

namespace Attempt

/-- Every diagnostic of a text points into the text: those of bad pieces, those of errors in what
can be read, and those of the meaning of what was read. -/
theorem diagnostics_pointInto (text : String) :
    ∀ d ∈ (Attempt.bind [] 0 (.ofText text)).diagnostics, d.PointsInto ⟨text⟩ := by
  obtain ⟨placed, read⟩ := Syntax.Tree.ofText_placed text
  intro d member
  rw [Attempt.diagnostics] at member
  rcases List.mem_append.1 member with inTree | inMeaning
  · exact read d inTree
  · exact Bound.bindProgram_pointInto placed 0 d inMeaning

/-- A text with a character that starts no token, a bracket that is not closed, and a variable that
there is not.  Two of its characters take two bytes. -/
def broken : String := "var s = \"ß\" §;\ny + (1 ;"

theorem broken_diagnostics_pointInto :
    ∃ bad unclosed unknown,
      (Attempt.bind [] 0 (.ofText broken)).diagnostics = [bad, unclosed, unknown] ∧
      (bad.span = ⟨13, 15⟩ ∧ bad.PointsInto ⟨broken⟩) ∧
      (unclosed.span = ⟨24, 25⟩ ∧ unclosed.PointsInto ⟨broken⟩) ∧
      (unknown.span = ⟨17, 18⟩ ∧ unknown.PointsInto ⟨broken⟩) := by
  have spans : (Attempt.bind [] 0 (.ofText broken)).diagnostics.map Diagnostic.span =
      [⟨13, 15⟩, ⟨24, 25⟩, ⟨17, 18⟩] := by
    decide +kernel
  obtain ⟨bad, rest, whole, first, spans⟩ := List.map_eq_cons_iff.1 spans
  obtain ⟨unclosed, rest, rfl, second, spans⟩ := List.map_eq_cons_iff.1 spans
  obtain ⟨unknown, rest, rfl, third, spans⟩ := List.map_eq_cons_iff.1 spans
  rw [List.map_eq_nil_iff.1 spans] at whole
  have pointInto := diagnostics_pointInto broken
  rw [whole] at pointInto
  exact ⟨bad, unclosed, unknown, whole, ⟨first, pointInto bad (by simp)⟩,
    ⟨second, pointInto unclosed (by simp)⟩, third, pointInto unknown (by simp)⟩

end Attempt

end ScriptLang
