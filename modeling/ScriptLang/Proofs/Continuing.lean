/-
# ScriptLang.Proofs.Continuing -- programs that are entered line by line

The prompt reads a program line by line and asks for another line as long as the
text ended where more was expected.  Here is why this never turns down a program
before its last line: the tokens of the lines so far are the first tokens of the
program, so all of them can be taken, and what may be wrong is only that the text
ends there.  That is one error, and it marks the text as incomplete.

The newline has to stand outside of all strings, since a string that is cut is a
bad piece of text.
-/
import ScriptLang.Proofs.Lexing
import ScriptLang.Proofs.Reading
import ScriptLang.Shell.Prompt

namespace ScriptLang

set_option autoImplicit false

namespace Syntax

/-- A text without diagnostics has no bad piece, and all its tokens can be taken. -/
theorem taken_of_diagnostics {text : String} (clean : (Tree.ofText text).diagnostics = []) :
    (∀ l ∈ Lexeme.all text, l.bad? = none) ∧
      ∃ c, Config.start.run? (tokensOf text) = some c := by
  rw [diagnostics_ofText, List.append_eq_nil_iff, List.map_eq_nil_iff] at clean
  refine ⟨lexicalDiagnostics_eq_nil_iff.1 clean.1, ?_⟩
  obtain ⟨c, taken, -⟩ :=
    Reader.read_clean_iff.1 ⟨Reader.Outcome.errors_eq_nil_iff.1 clean.2, rfl⟩
  exact ⟨c, taken⟩

/-- If all tokens can be taken, the one thing that can be wrong is that the text ends. -/
theorem errors_of_run? {ts : List Located} {c : Config} (taken : Config.start.run? ts = some c) :
    (Reader.read ts).errors = [] ∨
      ∃ e : SyntaxError, e.found = none ∧ (Reader.read ts).errors = [e] := by
  obtain ⟨mode, none⟩ := Reader.foldl_feed_of_run? (r := Reader.start) rfl taken
  have none : (ts.foldl Reader.feed Reader.start).errors = [] := none
  cases done : c.finish? with
  | some statements =>
      left
      rw [Reader.read, Reader.finish_of_reading mode none done]
      rfl
  | none =>
      right
      let stuck := c.settle Option.none
      let seen := (ts.foldl Reader.feed Reader.start).seen
      refine ⟨⟨Option.none, .point seen, stuck.expected⟩, rfl, ?_⟩
      rw [Reader.read, Reader.finish]
      simp only [mode, done, Reader.concludeSearch, none]
      split <;> rfl

/-! ## Cuts -/

/-- A part of a text whose lexemes come first in the text has no more to complain about than that it
ends. -/
theorem diagnostics_of_first {front text : String} (clean : (Tree.ofText text).diagnostics = [])
    (first : Lexeme.all front <+: Lexeme.all text) :
    (Tree.ofText front).diagnostics = [] ∨
      ∃ e : SyntaxError, e.found = none ∧
        (Tree.ofText front).diagnostics = [e.diagnostic ⟨front⟩] ∧
        (Tree.ofText front).incomplete = true := by
  obtain ⟨good, c, taken⟩ := taken_of_diagnostics clean
  have noBad : lexicalDiagnostics ⟨front⟩ = [] :=
    lexicalDiagnostics_eq_nil_iff.2 fun l member => good l (first.mem member)
  obtain ⟨later, tokens⟩ : tokensOf front <+: tokensOf text := first.filterMap _
  rw [← tokens, Config.run?_append] at taken
  obtain ⟨c', takenFront, -⟩ := Option.bind_eq_some_iff.1 taken
  rw [diagnostics_ofText, incomplete_ofText, noBad, List.nil_append]
  rcases errors_of_run? takenFront with none | ⟨e, atEnd, one⟩
  · left
    rw [none]
    rfl
  · right
    refine ⟨e, atEnd, ?_, ?_⟩
    · rw [one]
      rfl
    · rw [one, List.any_cons, SyntaxError.atEnd, atEnd]
      rfl

end Syntax

/-- A program is not turned down halfway.  Before any newline outside of its strings, the text so far
has no diagnostics, or one that says that the text ended, and then the prompt keeps the text and
asks for another line. -/
theorem Shell.Prompt.continues_before_newline (front rest : String)
    (accepted : (Syntax.Tree.ofText (front ++ "\n" ++ rest)).diagnostics = [])
    (outside : ∀ l ∈ Lexeme.all (front ++ "\n" ++ rest), l.isString = true →
      ¬ l.span.Covers front.utf8ByteSize) :
    (Syntax.Tree.ofText front).diagnostics = [] ∨
      ∃ e : Syntax.SyntaxError, e.found = none ∧
        (Syntax.Tree.ofText front).diagnostics = [e.diagnostic ⟨front⟩] ∧
        (Syntax.Tree.ofText front).incomplete = true ∧
        ∀ p : Prompt, p.consider front false = .next { p with pending := front } := by
  have chars : (front ++ "\n" ++ rest).toList = front.toList ++ '\n' :: rest.toList := by
    simp [String.toList_append]
  have noBad := (Syntax.taken_of_diagnostics accepted).1
  unfold Lexeme.all at noBad outside
  rw [chars] at noBad outside
  have first : Lexeme.all front <+: Lexeme.all (front ++ "\n" ++ rest) := by
    unfold Lexeme.all
    rw [chars]
    refine Lexer.lexemesFrom_newline noBad ?_
    rw [Nat.zero_add, Text.width_toList]
    exact outside
  rcases Syntax.diagnostics_of_first accepted first with none | ⟨e, atEnd, one, incomplete⟩
  · exact .inl none
  · refine .inr ⟨e, atEnd, one, incomplete, fun p => ?_⟩
    simp only [consider, incomplete, Bool.not_true, Bool.or_false, Bool.false_eq_true, if_false]

/-- In a block, between the arguments of a call and after a comment. -/
theorem Shell.Prompt.continues_in_call :
    (Syntax.Tree.ofText ("while true \x7b\nf(\"a\", // first" ++ "\n" ++ "2)\n\x7d")).diagnostics = [] ∧
    (∀ l ∈ Lexeme.all ("while true \x7b\nf(\"a\", // first" ++ "\n" ++ "2)\n\x7d"),
      l.isString = true → ¬ l.span.Covers "while true \x7b\nf(\"a\", // first".utf8ByteSize) ∧
    ∃ e : Syntax.SyntaxError, e.found = none ∧
      (Syntax.Tree.ofText "while true \x7b\nf(\"a\", // first").diagnostics =
        [e.diagnostic ⟨"while true \x7b\nf(\"a\", // first"⟩] ∧
      (Syntax.Tree.ofText "while true \x7b\nf(\"a\", // first").incomplete = true ∧
      ∀ p : Prompt, p.consider "while true \x7b\nf(\"a\", // first" false =
        .next { p with pending := "while true \x7b\nf(\"a\", // first" } := by
  have accepted : (Syntax.Tree.ofText
      ("while true \x7b\nf(\"a\", // first" ++ "\n" ++ "2)\n\x7d")).diagnostics = [] := by
    decide +kernel
  have outside : ∀ l ∈ Lexeme.all ("while true \x7b\nf(\"a\", // first" ++ "\n" ++ "2)\n\x7d"),
      l.isString = true → ¬ l.span.Covers "while true \x7b\nf(\"a\", // first".utf8ByteSize := by
    decide +kernel
  have some : (Syntax.Tree.ofText "while true \x7b\nf(\"a\", // first").diagnostics ≠ [] := by
    decide +kernel
  exact ⟨accepted, outside, (continues_before_newline _ _ accepted outside).resolve_left some⟩

end ScriptLang
