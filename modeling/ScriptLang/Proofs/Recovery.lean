/-
# ScriptLang.Proofs.Recovery -- what is reported about a text that is no program

A reader reports its errors in the order in which they stand in the text
(`Reader.errors_increasing`).  It gives up in one case only: at a brace after
statements that are complete as a program (`Reader.failure_unexpected`), since
everywhere else the statement that is being read can be given up.

The strict way to a tree reports the error at which the reader gave up, even if
there are others before it.  So it reports the first problem of the text exactly
if the reader did not give up after another error.
-/
import ScriptLang.Proofs.Lexing
import ScriptLang.Proofs.Reading
import ScriptLang.Proofs.Shifting

namespace ScriptLang.Syntax

set_option autoImplicit false

/-! ## Errors in order -/

/-- Whether tokens stand one after the other, after an offset. -/
def Ordered (offset : Nat) (ts : List Located) : Prop :=
  ts.Pairwise (fun t t' => t.span.stop ≤ t'.span.start) ∧
    ∀ t ∈ ts, offset ≤ t.span.start ∧ t.span.start < t.span.stop

theorem span_of_token? {l : Lexeme} {t : Located} (found : l.token? = some t) :
    t.span = l.span := by
  unfold Lexeme.token? at found
  split at found <;> cases found
  rfl

theorem ordered_tokensOf (text : String) : Ordered 0 (tokensOf text) := by
  obtain ⟨ordered, bounds⟩ := Lexer.lexemesFrom_ordered 0 text.toList
  refine ⟨?_, ?_⟩
  · refine List.Pairwise.filterMap _ ?_ ordered
    intro l l' before t found t' found'
    rw [span_of_token? found, span_of_token? found']
    exact before
  · intro t member
    obtain ⟨l, member, found⟩ := List.mem_filterMap.1 member
    rw [span_of_token? found]
    exact bounds l member

namespace Reader

/-- The errors so far, newest first, with the one that a search is for. -/
def allErrors (r : Reader) : List SyntaxError :=
  match r.mode with
  | .reading _ => r.errors
  | .searching s => s.error :: r.errors

/-- Whether errors, newest first, come one after the other and before an offset. -/
def Increasing (offset : Nat) (es : List SyntaxError) : Prop :=
  es.Pairwise (fun e e' => e'.span.start < e.span.start) ∧ ∀ e ∈ es, e.span.start < offset

theorem Increasing.mono {a b : Nat} {es : List SyntaxError} (increasing : Increasing a es)
    (le : a ≤ b) : Increasing b es :=
  ⟨increasing.1, fun e member => Nat.lt_of_lt_of_le (increasing.2 e member) le⟩

theorem Increasing.cons {a b : Nat} {e : SyntaxError} {es : List SyntaxError}
    (increasing : Increasing a es) (after : a ≤ e.span.start) (before : e.span.start < b) :
    Increasing b (e :: es) := by
  refine ⟨List.pairwise_cons.2 ⟨fun e' member => ?_, increasing.1⟩, ?_⟩
  · exact Nat.lt_of_lt_of_le (increasing.2 e' member) after
  · rintro e' member
    rcases List.mem_cons.1 member with rfl | member
    · exact before
    · have older := increasing.2 e' member
      omega

theorem allErrors_pursue (r : Reader) (s : Search) (t : Located) :
    (r.pursue s t).allErrors = s.error :: r.errors ∧ (r.pursue s t).seen = t.span.stop := by
  unfold pursue
  split <;> exact ⟨rfl, rfl⟩

/-- A token adds an error at most at the token. -/
theorem increasing_feed {r : Reader} (increasing : Increasing r.seen r.allErrors) {t : Located}
    (after : r.seen ≤ t.span.start) (solid : t.span.start < t.span.stop) :
    Increasing (r.feed t).seen (r.feed t).allErrors ∧ (r.feed t).seen = t.span.stop := by
  have later : r.seen ≤ t.span.stop := by omega
  unfold feed
  split
  · rename_i s mode
    obtain ⟨errors, seen⟩ := allErrors_pursue r s t
    rw [errors, seen]
    rw [allErrors, mode] at increasing
    exact ⟨increasing.mono later, rfl⟩
  · rename_i c mode
    rw [allErrors, mode] at increasing
    split
    · exact ⟨increasing.mono later, rfl⟩
    · dsimp only
      obtain ⟨errors, seen⟩ := allErrors_pursue r (search (c.settle (some (.of t.token))) r.last
        (some t.span.start) ⟨some t.token, t.span, (c.settle (some (.of t.token))).expected⟩) t
      rw [errors, seen]
      exact ⟨increasing.cons after solid, rfl⟩

theorem increasing_foldl {r : Reader} (increasing : Increasing r.seen r.allErrors)
    {ts : List Located} (ordered : Ordered r.seen ts) :
    Increasing (ts.foldl feed r).seen (ts.foldl feed r).allErrors := by
  induction ts generalizing r with
  | nil => exact increasing
  | cons t ts ih =>
      obtain ⟨pairs, bounds⟩ := ordered
      obtain ⟨before, pairs⟩ := List.pairwise_cons.1 pairs
      obtain ⟨after, solid⟩ := bounds t List.mem_cons_self
      obtain ⟨increasing, seen⟩ := increasing_feed increasing after solid
      refine ih increasing ⟨pairs, fun t' member => ?_⟩
      rw [seen]
      exact ⟨before t' member, (bounds t' (List.mem_cons_of_mem t member)).2⟩

theorem errors_concludeSearch (r : Reader) (s : Search) :
    (r.concludeSearch s).errors = (s.error :: r.errors).reverse := by
  unfold concludeSearch
  split
  · exact List.append_nil _
  · exact List.reverse_cons.symm

/-- The errors of a text come in the order in which they stand there. -/
theorem errors_increasing {ts : List Located} (ordered : Ordered 0 ts) :
    (read ts).errors.Pairwise fun e e' => e.span.start < e'.span.start := by
  have start : Increasing Reader.start.seen Reader.start.allErrors :=
    ⟨List.Pairwise.nil, fun _ member => nomatch member⟩
  have increasing := increasing_foldl start ordered
  rw [read, finish]
  split
  · rename_i s mode
    rw [allErrors, mode] at increasing
    rw [errors_concludeSearch]
    exact List.pairwise_reverse.2 increasing.1
  · rename_i c mode
    rw [allErrors, mode] at increasing
    split
    · rw [Outcome.errors, Option.toList_none, List.append_nil]
      exact List.pairwise_reverse.2 increasing.1
    · dsimp only
      rw [errors_concludeSearch]
      exact List.pairwise_reverse.2 (increasing.cons (Nat.le_refl _) (Nat.lt_succ_self _)).1

end Reader

/-! ## Giving up -/

/-- Whether a gap is a statement of the program, at which every text may end. -/
def Fallback.IsOutermost (f : Fallback) : Prop := ∃ done, f.gap = .clause (.program done) .statement

/-- Whether the statement of the program that is being read can be given up. -/
def HasOutermost (fs : List Fallback) : Prop := ∃ f ∈ fs, f.IsOutermost

theorem HasOutermost.append_right {fs : List Fallback} (has : HasOutermost fs) (gs : List Fallback) :
    HasOutermost (gs ++ fs) := by
  obtain ⟨f, member, outermost⟩ := has
  exact ⟨f, List.mem_append_right gs member, outermost⟩

/-- The statement that a block belongs to can be given up. -/
theorem Listing.statement_mem_fallbacks (outer : Listing) (owner : Owner) (opening : Span)
    (done : List Stmt) :
    ∃ start, (⟨.clause outer .statement, some start⟩ : Fallback) ∈
      (Listing.block outer owner opening done).fallbacks := by
  cases owner with
  | plain => exact ⟨opening.start, List.mem_cons_self⟩
  | thenPart keyword test => exact ⟨keyword.start, by simp [Listing.fallbacks]⟩
  | elsePart keyword test yes => exact ⟨keyword.start, by simp [Listing.fallbacks]⟩
  | whileBody keyword test =>
      cases test <;> exact ⟨keyword.start, by simp [Listing.fallbacks]⟩
  | doBody keyword => exact ⟨keyword.start, by simp [Listing.fallbacks]⟩
  | forBody keyword mutable var lower upper => exact ⟨keyword.start, by simp [Listing.fallbacks]⟩

theorem Listing.hasOutermost_block (outer : Listing) (owner : Owner) (opening : Span)
    (done : List Stmt) : HasOutermost (Listing.block outer owner opening done).fallbacks := by
  induction outer generalizing owner opening done with
  | program first =>
      obtain ⟨start, member⟩ := statement_mem_fallbacks (.program first) owner opening done
      exact ⟨_, member, first, rfl⟩
  | block outer owner' opening' done' ih => exact (ih owner' opening' done').append_right _

theorem Listing.hasOutermost (list : Listing) (start : Option Nat) :
    HasOutermost (⟨.clause list .statement, start⟩ :: list.fallbacks) := by
  cases list with
  | program done => exact ⟨_, List.mem_cons_self, done, rfl⟩
  | block outer owner opening done =>
      exact (hasOutermost_block outer owner opening done).append_right [_]

theorem Gap.hasOutermost (gap : Gap) (start : Option Nat) :
    HasOutermost (⟨gap, start⟩ :: gap.fallbacks) := by
  induction gap generalizing start with
  | clause list part =>
      have around (keyword : Span) : HasOutermost (list.fallbacksFrom keyword) :=
        list.hasOutermost (some keyword.start)
      cases part with
      | statement => exact list.hasOutermost start
      | varInit keyword mutable name ty => exact (around keyword).append_right [_]
      | ifTest keyword => exact (around keyword).append_right [_]
      | whileTest keyword => exact (around keyword).append_right [_]
      | doTest keyword body => exact (around keyword).append_right [_]
      | forLower keyword mutable var => exact (around keyword).append_right [_]
      | forUpper keyword mutable var lower => exact (around keyword).append_right [_, _]
  | paren outer opening ih => exact (ih _).append_right [_]
  | call outer callee args ih =>
      rw [Gap.fallbacks]
      cases args.getLast? with
      | none => exact (ih _).append_right [_]
      | some first => exact (ih _).append_right [_, _]
  | assign outer target ih => exact (ih _).append_right [_]
  | compound outer target op opSpan ih => exact (ih _).append_right [_]
  | unary outer op opSpan ih => exact (ih _).append_right [_]
  | binary outer left op opSpan ih => exact (ih _).append_right [_]

namespace Config

/-- Only where a program is complete there is nothing to give up. -/
theorem hasOutermost (c : Config) :
    (∃ done, c = .listed (.program done)) ∨ HasOutermost c.fallbacks := by
  cases c with
  | listed list =>
      cases list with
      | program done => exact .inl ⟨done, rfl⟩
      | block outer owner opening done =>
          exact .inr (Listing.hasOutermost_block outer owner opening done)
  | due gap => exact .inr (gap.hasOutermost none)
  | operand gap e inside => exact .inr ((gap.hasOutermost _).append_right _)
  | whole gap e => exact .inr (gap.hasOutermost _)
  | thenDone list keyword test yes =>
      cases list with
      | program done => exact .inr ⟨_, List.mem_cons_self, _, rfl⟩
      | block outer owner opening done =>
          exact .inr ((Listing.hasOutermost_block outer owner opening done).append_right [_])
  | elseStart list keyword test yes =>
      exact .inr ((list.hasOutermost (some keyword.start)).append_right [_])
  | _ => exact .inr (Listing.hasOutermost _ _)

/-- Whether a list has been completed; only a look at the next token shows that. -/
def isListed : Config → Bool
  | .listed _ => true
  | _ => false

theorem isListed_closeBlock (list : Listing) (owner : Owner) (block : Block) :
    (closeBlock list owner block).isListed = false := by
  cases owner <;> rfl

theorem isListed_shifts {c c' : Config} {span : Span} {t : Token} (shifts : Shifts span c t c') :
    c'.isListed = false := by
  cases shifts with
  | due shifts => cases shifts <;> rfl
  | operand inside shifts => cases shifts <;> rfl
  | whole shifts => cases shifts <;> rfl
  | closeBlock outer owner opening done => exact isListed_closeBlock outer owner _
  | _ => rfl

/-- Taking a token completes no list. -/
theorem isListed_step? {c c' : Config} {t : Located} (taken : c.step? t = some c') :
    c'.isListed = false :=
  isListed_shifts (shifts_of_shift? taken)

theorem endsList_of_listEnds {list : Listing} {next : Option Terminal}
    (ends : listEnds list next = true) : endsList next = true := by
  unfold listEnds at ends
  unfold endsList at ends ⊢
  split at ends <;> simp_all

theorem endsList_of_afterStatement {list list' : Listing} {next : Option Terminal}
    (after : afterStatement list next = .listed list') : endsList next = true := by
  rcases afterStatement_cases list next with ⟨ends, -⟩ | same
  · exact endsList_of_listEnds ends
  · rw [same] at after
    cases after

theorem endsList_of_afterExpression {gap : Gap} {e : Expr} {list : Listing}
    {next : Option Terminal} (after : afterExpression gap e next = .listed list) :
    endsList next = true := by
  rcases afterExpression_cases gap e next with ⟨_, _, _, -, -, ends, -⟩ | same
  · exact ends
  · rw [same] at after
    cases after

/-- A list that the next token completes ends with that token. -/
theorem endsList_of_settle {c : Config} {next : Option Terminal} {list : Listing}
    (before : c.isListed = false) (settled : c.settle next = .listed list) :
    endsList next = true := by
  unfold settle at settled
  split at settled
  · split at settled
    · cases settled
    · split at settled
      · exact endsList_of_afterExpression settled
      · cases settled
  · exact endsList_of_afterExpression settled
  · exact endsList_of_afterStatement settled
  · split at settled
    · exact endsList_of_afterStatement settled
    · cases settled
  · rw [settled] at before
    cases before

theorem expected_program (done : List Stmt) : (listed (.program done)).expected = [] := by
  rfl

end Config

/-- Where a program is complete, a brace is what is left to be unexpected. -/
def SyntaxError.IsStrayBrace (e : SyntaxError) : Prop :=
  e.found = some (.mark .rbrace) ∧ e.expected = []

/-- Whether a search will find a gap, or is for the brace after a program. -/
def Mode.Hopeful : Mode → Prop
  | .reading c => c.isListed = false
  | .searching s => HasOutermost s.gaps ∨ s.error.IsStrayBrace

namespace Reader

/-- A text may end after the missing statement of a program. -/
theorem conclude?_ne_none {s : Search} (has : HasOutermost s.gaps) : s.conclude? ≠ none := by
  obtain ⟨f, member, done, gap⟩ := has
  intro none
  have failed := List.findSome?_eq_none_iff.1 none f member
  rw [Search.fill, gap] at failed
  cases failed

theorem hopeful_pursue {r : Reader} {s : Search} (hopeful : (Mode.searching s).Hopeful)
    (t : Located) : (r.pursue s t).mode.Hopeful := by
  unfold pursue
  split
  · rename_i c found
    obtain ⟨f, -, taken⟩ := List.exists_of_findSome?_eq_some found
    exact Config.isListed_step? taken
  · exact hopeful

theorem terminal_eq_rbrace {t : Token} (brace : Terminal.of t = .mark .rbrace) :
    t = .mark .rbrace := by
  cases t <;> cases brace
  rfl

/-- What is stuck at a token has a gap, unless the token is the brace after a program. -/
theorem hopeful_search {c : Config} (before : c.isListed = false) (t : Located) (last : Nat)
    (next : Option Nat) :
    (Mode.searching (search (c.settle (some (.of t.token))) last next
      ⟨some t.token, t.span, (c.settle (some (.of t.token))).expected⟩)).Hopeful := by
  rcases (c.settle (some (.of t.token))).hasOutermost with ⟨done, settled⟩ | has
  · right
    have ends := Config.endsList_of_settle before settled
    have brace : Terminal.of t.token = .mark .rbrace := by simpa [Config.endsList] using ends
    refine ⟨congrArg some (terminal_eq_rbrace brace), ?_⟩
    show (c.settle _).expected = []
    rw [settled]
    exact Config.expected_program done
  · exact .inl has

theorem hopeful_feed {r : Reader} (hopeful : r.mode.Hopeful) (t : Located) :
    (r.feed t).mode.Hopeful := by
  unfold feed
  split
  · rename_i s mode
    rw [mode] at hopeful
    exact hopeful_pursue hopeful t
  · rename_i c mode
    rw [mode] at hopeful
    split
    · rename_i next taken
      exact Config.isListed_step? taken
    · exact hopeful_pursue (hopeful_search hopeful t _ _) t

theorem hopeful_foldl {r : Reader} (hopeful : r.mode.Hopeful) (ts : List Located) :
    (ts.foldl feed r).mode.Hopeful := by
  induction ts generalizing r with
  | nil => exact hopeful
  | cons t ts ih => exact ih (hopeful_feed hopeful t)

theorem failure_concludeSearch {r : Reader} {s : Search} {e : SyntaxError}
    (failed : (r.concludeSearch s).failure = some e) : s.error = e ∧ ¬ HasOutermost s.gaps := by
  unfold concludeSearch at failed
  split at failed
  · cases failed
  · rename_i none
    exact ⟨Option.some.inj failed, fun has => conclude?_ne_none has none⟩

/-- A reader gives up only at a brace after a program. -/
theorem failure_unexpected {ts : List Located} {e : SyntaxError}
    (failed : (read ts).failure = some e) : e.IsStrayBrace := by
  have hopeful : (ts.foldl feed start).mode.Hopeful := hopeful_foldl (r := start) rfl ts
  rw [read, finish] at failed
  split at failed
  · rename_i s mode
    rw [mode] at hopeful
    obtain ⟨rfl, hopeless⟩ := failure_concludeSearch failed
    exact hopeful.resolve_left hopeless
  · rename_i c mode
    split at failed
    · cases failed
    · rename_i unfinished
      obtain ⟨-, hopeless⟩ := failure_concludeSearch failed
      rcases (c.settle none).hasOutermost with ⟨done, settled⟩ | has
      · rw [Config.finish?, settled] at unfinished
        cases unfinished
      · exact absurd has hopeless

end Reader

/-! ## The strict way and the lenient way -/

/-- The bad pieces of a text, in order. -/
def badPieces (text : String) : List (String × Span) := (Lexeme.all text).filterMap Lexeme.bad?

theorem lexicalDiagnostics_eq (text : String) :
    lexicalDiagnostics ⟨text⟩ = (badPieces text).map (badDiagnostic ⟨text⟩) := by
  rw [badPieces, List.map_filterMap]
  rfl

theorem tokensOf?_eq (ls : List Lexeme) :
    tokensOf? ls =
      match ls.filterMap Lexeme.bad? with
      | [] => .ok (ls.filterMap Lexeme.token?)
      | bad :: _ => .error (.ofBad bad.1 bad.2) := by
  induction ls with
  | nil => rfl
  | cons l ls ih =>
      obtain ⟨piece, span⟩ := l
      cases piece with
      | bad text => rfl
      | token t =>
          have same : (⟨.token t, span⟩ :: ls).filterMap Lexeme.bad? = ls.filterMap Lexeme.bad? := rfl
          rw [tokensOf?, ih, same]
          cases ls.filterMap Lexeme.bad? <;> rfl

/-- A text is parsed if it has no bad piece; otherwise the first one is reported. -/
theorem parseText_eq (text : String) :
    parseText text =
      match badPieces text with
      | [] => parse text.utf8ByteSize (tokensOf text)
      | bad :: _ => .error (.ofBad bad.1 bad.2) := by
  rw [parseText, tokenize, tokensOf?_eq, ← badPieces]
  cases badPieces text <;> rfl

namespace CompileError

/-- Whether an error is about a bad piece of text. -/
def IsLexical : CompileError → Prop
  | .lexer .. => True
  | _ => False

/-- Whether an error says what a diagnostic says: with the same range, and with the same message or
about the same bad piece. -/
def Matches (d : Diagnostic) : CompileError → Prop
  | .lexer message span => span = d.span ∧
      ∃ piece, message = "unexpected character: " ++ Text.quote piece ∧
        d.message = "Bad character input: " ++ Text.quote piece ++ "."
  | .parser message span => span = d.span ∧ message = d.message
  | .file _ => False

theorem matches_ofBad (source : Source) (bad : String × Span) :
    (ofBad bad.1 bad.2).Matches (badDiagnostic source bad) :=
  ⟨rfl, bad.1, rfl, rfl⟩

theorem matches_ofSyntax (source : Source) (e : SyntaxError) :
    (ofSyntax e).Matches (e.diagnostic source) :=
  ⟨rfl, rfl⟩

theorem Matches.span?_eq {e : CompileError} {d : Diagnostic} (h : e.Matches d) :
    e.span? = some d.span := by
  cases e with
  | lexer message span => exact congrArg some h.1
  | parser message span => exact congrArg some h.1
  | file message => exact h.elim

end CompileError

/-- Whether a reader gave up after it had gone on after another error. -/
def Reader.Outcome.GaveUpLate (o : Reader.Outcome) : Prop := o.recovered ≠ [] ∧ o.failure ≠ none

theorem SyntaxError.IsStrayBrace.message_eq {e : SyntaxError} (stray : e.IsStrayBrace) :
    e.message = "Unexpected \"\x7d\"." := by
  rw [SyntaxError.message, stray.1, stray.2]
  decide

/-- The error of a text without bad pieces, beside all that is wrong with it. -/
theorem parse_error_cases {size : Nat} {ts : List Located} {e : CompileError}
    (failed : parse size ts = .error e) :
    (∃ x xs, (Reader.read ts).errors = x :: xs ∧ e = .ofSyntax x ∧
        ¬ (Reader.read ts).GaveUpLate) ∨
      ∃ x y xs, (Reader.read ts).errors = x :: (xs ++ [y]) ∧ e = .ofSyntax y ∧ y.IsStrayBrace ∧
        (Reader.read ts).GaveUpLate := by
  unfold parse at failed
  unfold Reader.Outcome.errors Reader.Outcome.GaveUpLate
  cases failure : (Reader.read ts).failure with
  | some y =>
      simp only [failure] at failed
      cases failed
      cases recovered : (Reader.read ts).recovered with
      | nil => exact .inl ⟨y, [], rfl, rfl, fun late => late.1 rfl⟩
      | cons x xs =>
          exact .inr ⟨x, y, xs, rfl, rfl, Reader.failure_unexpected failure,
            List.cons_ne_nil _ _, Option.some_ne_none _⟩
  | none =>
      cases recovered : (Reader.read ts).recovered with
      | nil =>
          simp only [failure, recovered] at failed
          cases failed
      | cons x xs =>
          simp only [failure, recovered] at failed
          cases failed
          exact .inl ⟨x, xs, List.append_nil _, rfl, fun late => late.2 rfl⟩

/-- The error at which a reader gave up late is not the first one. -/
theorem not_matches_first {ts : List Located} (ordered : Ordered 0 ts) {x y : SyntaxError}
    {xs : List SyntaxError} (errors : (Reader.read ts).errors = x :: (xs ++ [y])) (source : Source) :
    ¬ (CompileError.ofSyntax y).Matches (x.diagnostic source) := by
  have increasing := Reader.errors_increasing ordered
  rw [errors] at increasing
  have before : x.span.start < y.span.start :=
    (List.pairwise_cons.1 increasing).1 y (List.mem_append_right xs List.mem_cons_self)
  rintro ⟨same, -⟩
  have same : y.span = x.span := same
  rw [same] at before
  exact Nat.lt_irrefl _ before

theorem parse_ok_iff_clean {size : Nat} {ts : List Located} {p : Program} :
    parse size ts = .ok p ↔
      (Reader.read ts).errors = [] ∧ p = ⟨(Reader.read ts).statements, .point size⟩ := by
  rw [parse_eq_ok_iff, Reader.Outcome.errors_eq_nil_iff]
  obtain ⟨statements, eof⟩ := p
  constructor
  · rintro ⟨c, taken, done, rfl⟩
    obtain ⟨clean, same⟩ := Reader.read_clean_iff.2 ⟨c, taken, done⟩
    exact ⟨clean, by rw [same]⟩
  · rintro ⟨clean, same⟩
    cases same
    obtain ⟨c, taken, done⟩ := Reader.read_clean_iff.1 ⟨clean, rfl⟩
    exact ⟨c, taken, done, rfl⟩

/-- The strict way gives the tree of the lenient way exactly if there are no diagnostics.  Otherwise
it reports the first bad piece, or else the first syntax error, unless the reader gave up after
that: then it reports the brace where the reader gave up, which is the last diagnostic. -/
theorem parseText_matches_iff (text : String) :
    (∀ p, parseText text = .ok p ↔
      (Tree.ofText text).diagnostics = [] ∧ p = (Tree.ofText text).root) ∧
    ∀ e, parseText text = .error e →
      ∃ first last, (Tree.ofText text).diagnostics.head? = some first ∧
        (Tree.ofText text).diagnostics.getLast? = some last ∧
        (e.IsLexical ↔ lexicalDiagnostics ⟨text⟩ ≠ []) ∧
        (e.Matches first ↔ e.IsLexical ∨ ¬ (Reader.read (tokensOf text)).GaveUpLate) ∧
        (¬ e.Matches first → e.Matches last ∧ e.message = "Unexpected \"\x7d\".") := by
  rw [parseText_eq, diagnostics_ofText, lexicalDiagnostics_eq]
  cases bads : badPieces text with
  | cons bad bads =>
      refine ⟨fun p => iff_of_false (by rintro ⟨⟩) fun h => List.cons_ne_nil _ _ h.1, ?_⟩
      intro e failed
      cases failed
      have first := CompileError.matches_ofBad ⟨text⟩ bad
      refine ⟨_, _, rfl, List.getLast?_cons, ?_, ?_, fun other => absurd first other⟩
      · exact iff_of_true trivial (List.cons_ne_nil _ _)
      · exact iff_of_true first (.inl trivial)
  | nil =>
      refine ⟨fun p => ?_, ?_⟩
      · rw [List.map_nil, List.nil_append, List.map_eq_nil_iff]
        exact parse_ok_iff_clean
      · intro e failed
        rw [List.map_nil, List.nil_append]
        rcases parse_error_cases failed with ⟨x, xs, errors, rfl, early⟩ |
          ⟨x, y, xs, errors, rfl, stray, late⟩
        · have first := CompileError.matches_ofSyntax ⟨text⟩ x
          rw [errors]
          refine ⟨_, _, rfl, List.getLast?_cons, ?_, ?_, fun other => absurd first other⟩
          · exact iff_of_false id fun other => other rfl
          · exact iff_of_true first (.inr early)
        · have later := not_matches_first (ordered_tokensOf text) errors ⟨text⟩
          rw [errors, ← List.cons_append, List.map_append]
          refine ⟨_, y.diagnostic ⟨text⟩, rfl, List.getLast?_concat, ?_, ?_, fun _ => ?_⟩
          · exact iff_of_false id fun other => other rfl
          · exact iff_of_false later fun other => other.elim id fun early => early late
          · exact ⟨CompileError.matches_ofSyntax ⟨text⟩ y, stray.message_eq⟩

/-- The brace in `1 + ; }` is reported, and it is the last thing that is said about the text. -/
theorem stray_brace_matches_last :
    ∃ e last, parseText "1 + ; \x7d" = .error e ∧
      (Tree.ofText "1 + ; \x7d").diagnostics.getLast? = some last ∧ e.Matches last ∧
      e.message = "Unexpected \"\x7d\"." := by
  have strict : (match parseText "1 + ; \x7d" with
      | .ok _ => none
      | .error e => e.span?) = some ⟨6, 7⟩ := by
    decide +kernel
  have lenient : (Tree.ofText "1 + ; \x7d").diagnostics.head?.map Diagnostic.span = some ⟨4, 5⟩ := by
    decide +kernel
  cases parsed : parseText "1 + ; \x7d" with
  | ok p =>
      rw [parsed] at strict
      cases strict
  | error e =>
      rw [parsed] at strict
      have strict : e.span? = some ⟨6, 7⟩ := strict
      obtain ⟨first, last, head, final, -, -, later⟩ := (parseText_matches_iff _).2 e parsed
      rw [head] at lenient
      have other : ¬ e.Matches first := by
        intro same
        rw [same.span?_eq] at strict
        cases lenient.symm.trans strict
      exact ⟨e, last, rfl, final, later other⟩

/-- What is said first about `1 + ; }` is about the semicolon, but the brace is reported. -/
theorem stray_brace_hides_semicolon :
    ∃ e first, parseText "1 + ; \x7d" = .error e ∧
      (Tree.ofText "1 + ; \x7d").diagnostics.head? = some first ∧
      e.span? = some ⟨6, 7⟩ ∧ first.span = ⟨4, 5⟩ := by
  have strict : (match parseText "1 + ; \x7d" with
      | .ok _ => none
      | .error e => e.span?) = some ⟨6, 7⟩ := by
    decide +kernel
  have lenient : (Tree.ofText "1 + ; \x7d").diagnostics.head?.map Diagnostic.span = some ⟨4, 5⟩ := by
    decide +kernel
  obtain ⟨first, found, span⟩ := Option.map_eq_some_iff.1 lenient
  cases parsed : parseText "1 + ; \x7d" with
  | ok p =>
      rw [parsed] at strict
      cases strict
  | error e =>
      rw [parsed] at strict
      exact ⟨e, first, rfl, found, strict, span⟩

end ScriptLang.Syntax
