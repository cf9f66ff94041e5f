/-
# ScriptLang.Proofs.Covering -- every character is in a piece or in a gap

The lexemes of a text stand one after the other, and what stands between them is
trivia: blanks, and comments that run up to the end of their line
(`Lexer.gaps_trivia`).  A gap can be put together from several matches, so the
proof goes along the text with the part of a gap that has been read so far.

Tokens and bad pieces are the lexemes, so each byte of a text is in exactly one
token, one bad piece that is reported, or one gap (`Syntax.lexemes_tile`).
-/
import ScriptLang.Proofs.Pointing

namespace ScriptLang

set_option autoImplicit false

/-! ## Trivia -/

/-- Whether characters that stand before `rest` are blanks and comments, each comment up to the end
of its line. -/
inductive Trivia (rest : List Char) : List Char → Prop
  | nil : Trivia rest []
  | blank {c : Char} {gap : List Char} (white : c ∈ [' ', '\t', '\r', '\n'])
      (later : Trivia rest gap) : Trivia rest (c :: gap)
  | comment {line gap : List Char} (inLine : '\n' ∉ line)
      (ends : ∀ c ∈ (gap ++ rest).head?, c = '\n') (later : Trivia rest gap) :
      Trivia rest ('/' :: '/' :: (line ++ gap))

namespace Trivia

variable {rest : List Char}

theorem append {xs ys : List Char} (first : Trivia (ys ++ rest) xs) (second : Trivia rest ys) :
    Trivia rest (xs ++ ys) := by
  induction first with
  | nil => exact second
  | blank white _ ih => exact .blank white ih
  | @comment line gap inLine ends _ ih =>
      rw [List.cons_append, List.cons_append, List.append_assoc]
      rw [← List.append_assoc] at ends
      exact .comment inLine ends ih

theorem of_blanks {cs : List Char} (blank : ∀ c ∈ cs, Lexer.isBlank c = true) : Trivia rest cs := by
  induction cs with
  | nil => exact .nil
  | cons c cs ih =>
      rw [List.forall_mem_cons] at blank
      have white := blank.1
      simp only [Lexer.isBlank, Bool.or_eq_true, decide_eq_true_eq] at white
      exact .blank (by simp only [List.mem_cons, List.not_mem_nil]; tauto) (ih blank.2)

end Trivia

namespace Lexer

theorem take_takeWhile (p : Char → Bool) (cs : List Char) :
    cs.take (cs.takeWhile p).length = cs.takeWhile p :=
  (List.prefix_iff_eq_take.1 (List.takeWhile_prefix p)).symm

theorem drop_takeWhile (p : Char → Bool) (cs : List Char) :
    cs.drop (cs.takeWhile p).length = cs.dropWhile p := by
  have split := List.takeWhile_append_dropWhile (p := p) (l := cs)
  calc cs.drop (cs.takeWhile p).length
      = (cs.takeWhile p ++ cs.dropWhile p).drop (cs.takeWhile p).length := by rw [split]
    _ = cs.dropWhile p := List.drop_left

theorem number_piece (c : Char) (cs : List Char) : (number c cs).piece ≠ none := by
  unfold number
  dsimp only
  split <;> split <;> exact Option.some_ne_none _

theorem word_piece (c : Char) (cs : List Char) : (word c cs).piece ≠ none := by
  unfold word
  dsimp only
  split <;> exact Option.some_ne_none _

theorem string_piece (cs : List Char) : (string cs).piece ≠ none := by
  unfold string
  dsimp only
  split <;> exact Option.some_ne_none _

/-- Only blanks and comments are skipped: numbers, words, strings, marks and bad characters are
pieces. -/
theorem scan_skips {c : Char} {cs : List Char} (skipped : (scan c cs).piece = none) :
    (isBlank c = true ∧ (scan c cs).more = (cs.takeWhile isBlank).length) ∨
      ((c = '/' ∧ cs.head? = some '/') ∧ (scan c cs).more = (cs.takeWhile (· ≠ '\n')).length) := by
  unfold scan at skipped ⊢
  split at skipped
  · rename_i blank
    rw [if_pos blank]
    exact .inl ⟨blank, rfl⟩
  rename_i solid
  rw [if_neg solid]
  split at skipped
  · rename_i slashes
    rw [if_pos slashes]
    simp only [Bool.and_eq_true, decide_eq_true_eq] at slashes
    exact .inr ⟨slashes, rfl⟩
  split at skipped
  · exact absurd skipped (number_piece c cs)
  split at skipped
  · exact absurd skipped (word_piece c cs)
  split at skipped
  · exact absurd skipped (string_piece cs)
  split at skipped <;> cases skipped

/-- What is skipped is trivia. -/
theorem scan_trivia {c : Char} {cs : List Char} (skipped : (scan c cs).piece = none) :
    Trivia (cs.drop (scan c cs).more) (c :: cs.take (scan c cs).more) := by
  obtain ⟨blank, more⟩ | ⟨⟨rfl, slash⟩, more⟩ := scan_skips skipped
  · rw [more, take_takeWhile]
    refine .of_blanks (List.forall_mem_cons.2 ⟨blank, fun d member => ?_⟩)
    exact List.mem_takeWhile_imp member
  · obtain ⟨line, rfl⟩ := List.head?_eq_some_iff.1 slash
    rw [more, take_takeWhile, drop_takeWhile, List.takeWhile_cons_of_pos (by decide),
      List.dropWhile_cons_of_pos (by decide), ← List.append_nil (line.takeWhile _)]
    refine .comment (fun inLine => ?_) (fun d first => ?_) .nil
    · simpa using List.mem_takeWhile_imp inLine
    · have stops := List.head?_dropWhile_not (fun c : Char => decide (c ≠ '\n')) line
      rw [List.nil_append, Option.mem_def] at first
      rw [first] at stops
      simpa using stops

end Lexer

/-! ## Gaps -/

/-- What spans that stand one after the other leave free between two offsets. -/
def gapsFrom (offset stop : Nat) : List Span → List Span
  | [] => [⟨offset, stop⟩]
  | s :: ss => ⟨offset, s.start⟩ :: gapsFrom s.stop stop ss

/-- Whether the range of a text is trivia. -/
def TriviaAt (text : List Char) (g : Span) : Prop :=
  ∃ front gap rest, text = front ++ gap ++ rest ∧ Trivia rest gap ∧
    g = ⟨Text.width front, Text.width (front ++ gap)⟩

/-- Between lexemes there is trivia.  Of the gap that is being read, some part has been skipped. -/
theorem Lexer.gaps_trivia (front gap rest : List Char) (skipped : Trivia rest gap) :
    ∀ g ∈ gapsFrom (Text.width front) (Text.width (front ++ gap ++ rest))
        ((lexemesFrom (Text.width (front ++ gap)) rest).map Lexeme.span),
      TriviaAt (front ++ gap ++ rest) g := by
  induction rest using matches_induction generalizing front gap with
  | nil =>
      rw [lexemesFrom, List.append_nil]
      have whole : front ++ gap = front ++ gap ++ [] := (List.append_nil _).symm
      exact List.forall_mem_singleton.2 ⟨front, gap, [], whole, skipped, rfl⟩
  | cons c cs ih =>
      let piece := c :: cs.take (scan c cs).more
      let later := cs.drop (scan c cs).more
      have split : c :: cs = piece ++ later := by
        rw [List.cons_append, List.take_append_drop]
      rw [lexemesFrom_cons, stopOf_width]
      cases found : (scan c cs).piece with
      | none =>
          have more := scan_trivia found
          rw [split] at skipped
          have next := ih front (gap ++ piece) (skipped.append more)
          rw [← List.append_assoc, List.append_assoc (front ++ gap), ← split] at next
          exact next
      | some token =>
          refine List.forall_mem_cons.2 ⟨⟨front, gap, c :: cs, rfl, skipped, rfl⟩, ?_⟩
          have next := ih (front ++ gap ++ piece) [] .nil
          rw [List.append_nil, List.append_assoc (front ++ gap), ← split] at next
          exact next

/-! ## Each byte once -/

/-- Spans that stand one after the other between two offsets, together with their gaps, hold each
offset from there to there once, and no other. -/
theorem countP_covers {offset stop : Nat} {spans : List Span}
    (ordered : spans.Pairwise fun s s' => s.stop ≤ s'.start)
    (inside : ∀ s ∈ spans, offset ≤ s.start ∧ s.start < s.stop ∧ s.stop ≤ stop) (n : Nat) :
    (spans ++ gapsFrom offset stop spans).countP (fun s => s.start ≤ n ∧ n < s.stop) =
      if offset ≤ n ∧ n < stop then 1 else 0 := by
  induction spans generalizing offset with
  | nil =>
      rw [gapsFrom, List.nil_append, List.countP_singleton]
      simp only [decide_eq_true_eq]
  | cons s ss ih =>
      rw [List.pairwise_cons] at ordered
      rw [List.forall_mem_cons] at inside
      obtain ⟨⟨after, solid, before⟩, inside⟩ := inside
      have later := ih ordered.2 fun s' member => ⟨ordered.1 s' member, (inside s' member).2⟩
      rw [List.countP_append] at later
      rw [gapsFrom, List.cons_append, List.countP_cons, List.countP_append, List.countP_cons]
      simp only [decide_eq_true_eq]
      split_ifs at later ⊢ <;> omega

/-! ## Tilings -/

/-- Whether some spans of a text, one after the other, leave nothing free but trivia. -/
structure Source.Tiled (source : Source) (spans : List Span) : Prop where
  solid : ∀ s ∈ spans, s.start < s.stop
  ordered : spans.Pairwise fun s s' => s.stop ≤ s'.start
  boundaries : ∀ s ∈ spans, source.Boundary s.start ∧ source.Boundary s.stop
  inside : ∀ s ∈ spans, s.stop ≤ source.size
  gaps : ∀ g ∈ gapsFrom 0 source.size spans, TriviaAt source.text.toList g
  /-- Each byte is in one span or in one gap. -/
  once : ∀ n < source.size,
    (spans ++ gapsFrom 0 source.size spans).countP (fun s => s.Covers n) = 1

theorem Lexeme.all_tiled (text : String) :
    (Source.mk text).Tiled ((Lexeme.all text).map Lexeme.span) := by
  obtain ⟨ordered, solid⟩ := Lexer.lexemesFrom_ordered 0 text.toList
  have good := Lexeme.all_good text
  have gaps := Lexer.gaps_trivia [] [] text.toList .nil
  rw [List.append_nil, List.nil_append, Text.width_toList] at gaps
  have ordered : ((Lexeme.all text).map Lexeme.span).Pairwise fun s s' => s.stop ≤ s'.start :=
    List.pairwise_map.2 ordered
  have inside : ∀ l ∈ Lexeme.all text, l.span.stop ≤ (Source.mk text).size :=
    fun l member => (good l member).stop.le_size
  exact {
    solid := List.forall_mem_map.2 fun l member => (solid l member).2
    ordered := ordered
    boundaries := List.forall_mem_map.2 fun l member =>
      ⟨(good l member).start, (good l member).stop⟩
    inside := List.forall_mem_map.2 inside
    gaps := gaps
    once := fun n high =>
      (countP_covers ordered (List.forall_mem_map.2 fun l member =>
        ⟨Nat.zero_le _, (solid l member).2, inside l member⟩) n).trans
        (if_pos ⟨Nat.zero_le n, high⟩) }

namespace Syntax

/-- A lexeme is a token or a bad piece. -/
theorem perm_span (source : Source) (ls : List Lexeme) :
    (ls.map Lexeme.span).Perm
      ((ls.filterMap Lexeme.token?).map Located.span ++
        (ls.filterMap fun l => l.bad?.map (badDiagnostic source)).map Diagnostic.span) := by
  induction ls with
  | nil => exact .refl _
  | cons l ls ih =>
      obtain ⟨piece, span⟩ := l
      cases piece with
      | token t => exact ih.cons span
      | bad text => exact (ih.cons span).trans List.perm_middle.symm

/-- The tokens of a text and its bad pieces, which are reported, are solid and stand one after the
other inside of the text; they cut no character; and what is between them is blanks and comments.
So each byte is in one token, one bad piece or one gap. -/
theorem lexemes_tile (text : String) :
    ∃ spans : List Span,
      spans.Perm ((tokensOf text).map Located.span ++
        (lexicalDiagnostics ⟨text⟩).map Diagnostic.span) ∧
      (Source.mk text).Tiled spans :=
  ⟨_, perm_span ⟨text⟩ (Lexeme.all text), Lexeme.all_tiled text⟩

end Syntax

end ScriptLang
