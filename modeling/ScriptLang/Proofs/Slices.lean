/-
# ScriptLang.Proofs.Slices -- the text of a token

A token stands at a range of its text.  The characters of that range are a word, with
the rest of the text after it (`Text.Stands`), and the token is what the rules make of
them: no rule matches a longer word there, the token's rule has the highest priority of
those that match the word, and its value is what the word stands for
(`Syntax.tokens_longest`).  It does not matter whether the text was read strictly or
leniently.
-/
import ScriptLang.Proofs.LongestMatch
import ScriptLang.Proofs.Recovery

namespace ScriptLang

set_option autoImplicit false

/-- Whether a word stands at a range of a text, with a rest after it. -/
def Text.Stands (text : List Char) (span : Span) (word rest : List Char) : Prop :=
  ∃ before, text = before ++ (word ++ rest) ∧
    span = ⟨Text.width before, Text.width (before ++ word)⟩

namespace Lexer

/-- Every lexeme is what the rules make of the text from there on. -/
theorem lexemesFrom_matched (front rest : List Char) :
    ∀ l ∈ lexemesFrom (Text.width front) rest, ∃ word after,
      Text.Stands (front ++ rest) l.span word after ∧ Matched (word ++ after) word (some l.piece) := by
  induction rest using matches_induction generalizing front with
  | nil =>
      rw [lexemesFrom]
      exact List.forall_mem_nil _
  | cons c cs ih =>
      have split : c :: cs = c :: cs.take (scan c cs).more ++ cs.drop (scan c cs).more := by
        rw [List.cons_append, List.take_append_drop]
      have later := ih (front ++ c :: cs.take (scan c cs).more)
      rw [lexemesFrom_cons, stopOf_width]
      refine List.forall_mem_append.2 ⟨?_, ?_⟩
      · rintro l member
        obtain ⟨piece, found, rfl⟩ := List.mem_map.1 member
        have matched := scan_matched c cs
        rw [Option.mem_toList.1 found] at matched
        exact ⟨_, cs.drop (scan c cs).more, ⟨front, by rw [← split], rfl⟩, by rwa [← split]⟩
      · rwa [List.append_assoc, ← split] at later

/-- A whole text is the longest match of the rule that takes it. -/
theorem Rule.Takes.longest {word : List Char} {r : Rule} (takes : r.Takes word) :
    Longest (word ++ []) word r where
  toTakes := takes
  starts := List.prefix_append word []
  longest := by
    intro r' w member start
    rw [List.append_nil] at start
    exact start.length_le

/-- A token that the rules ask for at the start of a text is read there. -/
theorem lexemesFrom_of_longest {word rest : List Char} {t : Token}
    (longest : Longest (word ++ rest) word t.rule) (means : t.Means word) (offset : Nat) :
    lexemesFrom offset (word ++ rest) =
      ⟨.token t, offset, offset + Text.width word⟩ :: lexemesFrom (offset + Text.width word) rest := by
  obtain ⟨c, cs, rfl, -⟩ := Rule.starts longest.member
  rw [List.cons_append] at longest ⊢
  obtain ⟨same, scanned⟩ := scan_of_longest longest means
  have taken : (cs ++ rest).take (scan c (cs ++ rest)).more = cs := (List.cons.inj same).2
  have left : (cs ++ rest).drop (scan c (cs ++ rest)).more = rest := by
    have split := List.take_append_drop (scan c (cs ++ rest)).more (cs ++ rest)
    rw [taken] at split
    exact List.append_cancel_left split
  rw [lexemesFrom_cons, scanned, stopOf, taken, left, Text.width, Nat.add_assoc]
  rfl

end Lexer

namespace Syntax

theorem eq_tokensOf {text : String} {ts : List Located} (read : tokenize text = .ok ts) :
    ts = tokensOf text := by
  rw [tokenize, tokensOf?_eq] at read
  split at read <;> cases read
  rfl

theorem mem_tokensOf {text : String} {t : Located} (member : t ∈ tokensOf text) :
    (⟨.token t.token, t.span⟩ : Lexeme) ∈ Lexeme.all text := by
  obtain ⟨⟨piece, span⟩, listed, found⟩ := List.mem_filterMap.1 member
  cases piece <;> cases found
  exact listed

theorem stands_of_mem {text : String} {t : Located} (member : t ∈ tokensOf text) :
    ∃ word rest, Text.Stands text.toList t.span word rest ∧
      Lexer.Longest (word ++ rest) word t.token.rule ∧ t.token.Means word := by
  obtain ⟨word, rest, stands, matched⟩ :=
    Lexer.lexemesFrom_matched [] text.toList _ (mem_tokensOf member)
  cases matched with
  | token longest means => exact ⟨word, rest, stands, longest, means⟩

/-- The word of a token, taken alone, is read as the token. -/
theorem tokenize_word {word : List Char} {t : Token} (takes : t.rule.Takes word)
    (means : t.Means word) : tokenize (String.ofList word) = .ok [⟨t, ⟨0, Text.width word⟩⟩] := by
  have alone := Lexer.lexemesFrom_of_longest takes.longest means 0
  rw [tokenize, Lexeme.all, String.toList_ofList]
  rw [List.append_nil, Nat.zero_add, Lexer.lexemesFrom] at alone
  rw [alone]
  rfl

/-- A token is the longest match at its place, of the rule of highest priority, and what its word
stands for. -/
theorem tokens_longest (text : String) (ts : List Located)
    (read : ts = tokensOf text ∨ tokenize text = .ok ts) :
    ∀ t ∈ ts, ∃ word rest, Text.Stands text.toList t.span word rest ∧
      Lexer.Longest (word ++ rest) word t.token.rule ∧ t.token.Means word := by
  intro t member
  have same : ts = tokensOf text := read.elim id eq_tokensOf
  subst same
  exact stands_of_mem member

/-- A text without blanks.  Its second token is the power with an equals sign; its third one ends
before the `e`, which no digits follow. -/
def dense : String := "x**=1.5e+iffy"

theorem dense_tokens_longest :
    (tokensOf dense).map Located.span = [⟨0, 1⟩, ⟨1, 4⟩, ⟨4, 7⟩, ⟨7, 8⟩, ⟨8, 9⟩, ⟨9, 13⟩] ∧
      ∃ number ∈ tokensOf dense, number.span = ⟨4, 7⟩ ∧
        ∃ word rest, Text.Stands dense.toList ⟨4, 7⟩ word rest ∧
          Lexer.Longest (word ++ rest) word number.token.rule ∧ number.token.Means word := by
  have spans : (tokensOf dense).map Located.span =
      [⟨0, 1⟩, ⟨1, 4⟩, ⟨4, 7⟩, ⟨7, 8⟩, ⟨8, 9⟩, ⟨9, 13⟩] := by
    decide +kernel
  obtain ⟨number, member, span⟩ : ∃ t ∈ tokensOf dense, t.span = ⟨4, 7⟩ := by
    rw [← List.mem_map, spans]
    decide
  have longest := tokens_longest dense _ (.inl rfl) number member
  rw [span] at longest
  exact ⟨spans, number, member, span, longest⟩

end Syntax

end ScriptLang
