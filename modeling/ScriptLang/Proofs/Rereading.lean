/-
# ScriptLang.Proofs.Rereading -- tokens that are written and read again

The text of a token, with the end or a blank after it, is the longest match there:
words other than strings and comments hold no blank, and a string ends with the first
quote outside of its elements (`Lexer.longest_of_takes`).  So tokens that are written
with a blank between any two are read again as they were (`Syntax.tokenize_written`),
whatever stands next to what.

Not every token can be written.  The text of a floating-point number may be read as
an integer, that of a negative number starts with a mark, and a string whose text
gives a character by its code point is read with the letters of the escape.
-/
import ScriptLang.Proofs.Slices

namespace ScriptLang

open scoped Computability

set_option autoImplicit false

/-! ## Words without blanks -/

namespace Lexer

theorem isBlank_of_isWordPart {c : Char} (part : isWordPart c = true) : isBlank c = false := by
  rcases Bool.or_eq_true_iff.1 part with start | digit
  · exact (of_isWordStart start).1
  · exact (of_isDigit digit).1

theorem isBlank_of_row {w : List Char} (digits : w ∈ row isDigit) : ∀ c ∈ w, isBlank c = false :=
  fun c member => (of_isDigit ((mem_row.1 digits).2 c member)).1

theorem isBlank_of_any {w : List Char} (none : w.any isBlank = false) :
    ∀ c ∈ w, isBlank c = false :=
  fun c member => Bool.eq_false_iff.2 (List.any_eq_false.1 none c member)

namespace Rule

theorem solid_keyword (k : Keyword) : ∀ c ∈ k.text.toList, isBlank c = false :=
  isBlank_of_any (by cases k <;> decide)

theorem solid_mark (m : Mark) : ∀ c ∈ m.text.toList, isBlank c = false :=
  isBlank_of_any (by cases m <;> decide)

theorem solid_float {w : List Char} (member : w ∈ Rule.float.language) :
    ∀ c ∈ w, isBlank c = false := by
  obtain ⟨ds, digits, f, x, rfl, fraction, exponent, -⟩ := mem_float.1 member
  have inFraction : ∀ c ∈ f, isBlank c = false := by
    rcases fraction with rfl | fraction
    · exact List.forall_mem_nil _
    · obtain ⟨ds, digits, rfl⟩ := mem_fractions.1 fraction
      exact List.forall_mem_cons.2 ⟨rfl, isBlank_of_row digits⟩
  have inExponent : ∀ c ∈ x, isBlank c = false := by
    rcases exponent with rfl | exponent
    · exact List.forall_mem_nil _
    · obtain ⟨c, s, ds, digits, mark, sign, rfl⟩ := mem_exponents.1 exponent
      refine List.forall_mem_cons.2 ⟨?_, List.forall_mem_append.2 ⟨?_, isBlank_of_row digits⟩⟩
      · rcases mark with rfl | rfl <;> rfl
      · exact isBlank_of_any (by rcases sign with rfl | rfl | rfl <;> rfl)
  exact List.forall_mem_append.2
    ⟨List.forall_mem_append.2 ⟨isBlank_of_row digits, inFraction⟩, inExponent⟩

/-- Only strings and what is skipped can hold a blank. -/
theorem solid {r : Rule} {w : List Char} (member : w ∈ r.language) :
    r.IsSkipped ∨ r = .string ∨ ∀ c ∈ w, isBlank c = false := by
  cases r with
  | blanks => exact .inl (.inl rfl)
  | comment => exact .inl (.inr rfl)
  | keyword k =>
      rw [mem_exactly.1 member]
      exact .inr (.inr (solid_keyword k))
  | mark m =>
      rw [mem_exactly.1 member]
      exact .inr (.inr (solid_mark m))
  | float => exact .inr (.inr (solid_float member))
  | int => exact .inr (.inr (isBlank_of_row member))
  | string => exact .inr (.inl rfl)
  | ident =>
      obtain ⟨c, cs, start, parts, rfl⟩ := mem_ident.1 member
      exact .inr (.inr (List.forall_mem_cons.2
        ⟨(of_isWordStart start).1, fun d member => isBlank_of_isWordPart (parts d member)⟩))

end Rule

section

variable {r : Rule} {word rest : List Char}

/-- What holds no blank ends where a blank stands. -/
theorem length_le_of_solid {w : List Char} (solid : ∀ c ∈ w, isBlank c = false)
    (stops : ∀ c ∈ rest.head?, isBlank c = true) (starts : w <+: word ++ rest) :
    w.length ≤ word.length := by
  by_contra longer
  obtain ⟨more, rfl⟩ := List.prefix_of_prefix_length_le (List.prefix_append word rest) starts
    (Nat.le_of_not_le longer)
  cases more with
  | nil => exact longer (by rw [List.append_nil])
  | cons c more =>
      obtain ⟨later, rfl⟩ := (List.prefix_append_right_inj word).1 starts
      have blank := stops c rfl
      rw [solid c (by simp)] at blank
      cases blank

/-- The first character of a word that is not skipped is not blank. -/
theorem isBlank_of_head (member : word ∈ r.language) (notSkipped : ¬ r.IsSkipped) :
    ∀ c ∈ word.head?, isBlank c = false := by
  obtain ⟨d, ds, rfl, first⟩ := Rule.starts member
  rintro c ⟨⟩
  rw [← Bool.not_eq_true]
  intro blank
  exact notSkipped (.inl (Rule.eq_of_isBlank blank first))

/-- No comment starts with a word that is not skipped and has the end or a blank after it. -/
theorem not_comment_of_blank {w : List Char} (member : word ∈ r.language)
    (notSkipped : ¬ r.IsSkipped) (stops : ∀ c ∈ rest.head?, isBlank c = true)
    (comment : w ∈ Rule.comment.language) : ¬ w <+: word ++ rest := by
  intro starts
  obtain ⟨line, -, rfl⟩ := mem_comment.1 comment
  have slashes : ['/', '/'] <+: word ++ rest := List.IsPrefix.trans ⟨line, rfl⟩ starts
  have length := length_le_of_solid (isBlank_of_any rfl) stops slashes
  have inWord := List.prefix_of_prefix_length_le slashes (List.prefix_append word rest) length
  obtain ⟨ds, rfl⟩ := inWord
  obtain ⟨rfl, -⟩ | ⟨m, rfl, -⟩ := Rule.eq_of_other rfl rfl rfl (by decide)
    (Rule.startsWith_of_mem member)
  · exact notSkipped (.inr rfl)
  · exact not_slashes_prefix_mark m ⟨ds, mem_exactly.1 member⟩

/-- A word that is not skipped, with the end or a blank after it, is the longest match there. -/
theorem longest_of_takes (takes : r.Takes word) (notSkipped : ¬ r.IsSkipped)
    (stops : ∀ c ∈ rest.head?, isBlank c = true) : Longest (word ++ rest) word r where
  toTakes := takes
  starts := List.prefix_append word rest
  longest := by
    intro r' w member start
    obtain (rfl | rfl) | rfl | solid := Rule.solid member
    · obtain ⟨c, cs, rfl, -⟩ := Rule.starts takes.member
      have solid := isBlank_of_head takes.member notSkipped c rfl
      have blank := Rule.startsWith_of_isPrefix member start
      exact absurd (solid.symm.trans blank) Bool.false_ne_true
    · exact absurd start (not_comment_of_blank takes.member notSkipped stops member)
    · obtain ⟨c, cs, rfl, first⟩ := Rule.starts takes.member
      cases Rule.startsWith_of_isPrefix member start
      cases Rule.eq_of_quote first
      rw [(eq_of_isPrefix_string member start).2,
        (eq_of_isPrefix_string takes.member (List.prefix_append _ rest)).2]
    · exact length_le_of_solid solid stops start

end

end Lexer

/-! ## Written tokens -/

namespace Text

/-- Whether all characters of a text stand between quotes without their code points. -/
def Plain (cs : List Char) : Prop := ∀ c ∈ cs, escapeChar c ≠ codeEscape c

instance (cs : List Char) : Decidable (Plain cs) := List.decidableBAll _ cs

theorem escapeChar_cases {c : Char} (plain : escapeChar c ≠ codeEscape c) :
    (∃ d, (d, c) ∈ escapes ∧ escapeChar c = ['\\', d]) ∨
      (c ≠ '"' ∧ c ≠ '\\' ∧ escapeChar c = [c]) := by
  unfold escapeChar at plain ⊢
  split_ifs at plain ⊢ with zero tab carriage newline escape quote combining printable
  · exact .inl ⟨'0', by simp [zero, escapes], rfl⟩
  · exact .inl ⟨'t', by simp [tab, escapes], rfl⟩
  · exact .inl ⟨'r', by simp [carriage, escapes], rfl⟩
  · exact .inl ⟨'n', by simp [newline, escapes], rfl⟩
  · exact .inl ⟨'\\', by simp [escape, escapes], rfl⟩
  · exact .inl ⟨'"', by simp [quote, escapes], rfl⟩
  · exact absurd rfl plain
  · exact .inr ⟨quote, escape, rfl⟩
  · exact absurd rfl plain

theorem escapes_inLine {c d : Char} (listed : (c, d) ∈ escapes) : c ≠ '\n' := by
  have all : ∀ p ∈ escapes, p.1 ≠ '\n' := by decide
  exact all _ listed

theorem elements_escaped {cs : List Char} (plain : Plain cs) :
    cs.flatMap escapeChar ∈ Lexer.elements := by
  induction cs with
  | nil => exact Lexer.elements_nil
  | cons c cs ih =>
      obtain ⟨first, rest⟩ := List.forall_mem_cons.1 plain
      rw [List.flatMap_cons]
      rcases escapeChar_cases first with ⟨d, listed, same⟩ | ⟨noQuote, noEscape, same⟩
      · rw [same]
        exact Lexer.elements_escape (escapes_inLine listed) (ih rest)
      · rw [same]
        exact Lexer.elements_plain noQuote noEscape (ih rest)

/-- What stands between quotes stands for the text. -/
theorem unescapes_escaped {cs : List Char} (plain : Plain cs) :
    Unescapes (cs.flatMap escapeChar) cs := by
  induction cs with
  | nil => exact .nil
  | cons c cs ih =>
      obtain ⟨first, rest⟩ := List.forall_mem_cons.1 plain
      rw [List.flatMap_cons]
      rcases escapeChar_cases first with ⟨d, listed, same⟩ | ⟨noQuote, noEscape, same⟩
      · rw [same]
        exact .escape listed (ih rest)
      · rw [same]
        exact .plain noEscape (ih rest)

theorem unescape_escaped {cs : List Char} (plain : Plain cs) :
    Lexer.unescape (cs.flatMap escapeChar) = cs :=
  (Lexer.unescapes_iff (elements_escaped plain)).1 (unescapes_escaped plain)

theorem toList_quote (s : String) : (quote s).toList = '"' :: (s.toList.flatMap escapeChar ++ ['"']) := by
  rw [quote, String.toList_ofList]
  rfl

end Text

namespace Token

/-- Whether a token can be written so that it is read again. -/
def Writable : Token → Prop
  | .keyword _ | .mark _ => True
  | .int n => 0 ≤ n
  | .float _ => False
  | .string s => Text.Plain s.toList
  | .ident name => name.toList ∈ Lexer.Rule.ident.language ∧ ∀ k : Keyword, k.text ≠ name

variable {t : Token}

theorem toList_text_int {n : Int64} (natural : 0 ≤ n) :
    (Word.text n).toList = Nat.toDigits 10 n.toInt.natAbs := by
  have above : ¬ n.toInt < 0 := by
    rw [Int64.le_iff_toInt_le] at natural
    exact not_lt.2 natural
  rw [Reading.toList_text, if_neg above, List.nil_append]

/-- The rule of a token takes its text. -/
theorem takes_text (writable : t.Writable) : t.rule.Takes t.text.toList := by
  cases t with
  | keyword k => exact Lexer.Rule.takes_keyword k
  | mark m => exact Lexer.Rule.takes_mark m
  | int n =>
      rw [text, toList_text_int writable]
      refine Lexer.Rule.takes_int (Lexer.mem_row.2 ⟨Nat.toDigits_ne_nil, fun d member => ?_⟩)
      exact Nat.isDigit_of_mem_toDigits (by decide) (by decide) member
  | float x => exact writable.elim
  | string s =>
      rw [text, Text.toList_quote]
      exact Lexer.Rule.takes_string (Lexer.mem_string.2 ⟨_, Text.elements_escaped writable, rfl⟩)
  | ident name =>
      exact Lexer.Rule.takes_ident writable.1 fun k same =>
        writable.2 k (String.toList_inj.1 same)

/-- The text of a token stands for the token. -/
theorem means_text (writable : t.Writable) : t.Means t.text.toList := by
  cases t with
  | keyword k => rfl
  | mark m => rfl
  | int n =>
      rw [Means, text, toList_text_int writable, Nat.ofDigitChars_ten_toDigits]
      rw [Writable, Int64.le_iff_toInt_le] at writable
      have natural : 0 ≤ n.toInt := writable
      omega
  | float x => exact writable.elim
  | string s =>
      exact ⟨_, Text.elements_escaped writable, (Text.toList_quote s).symm,
        Text.unescapes_escaped writable⟩
  | ident name => rfl

end Token

namespace Lexer

theorem lexemesFrom_text {t : Token} (writable : t.Writable) {rest : List Char}
    (stops : ∀ c ∈ rest.head?, isBlank c = true) (offset : Nat) :
    lexemesFrom offset (t.text.toList ++ rest) =
      ⟨.token t, offset, offset + Text.width t.text.toList⟩ ::
        lexemesFrom (offset + Text.width t.text.toList) rest :=
  lexemesFrom_of_longest (longest_of_takes (Token.takes_text writable) t.rule_not_skipped stops)
    (Token.means_text writable) offset

/-- One blank is skipped alone. -/
theorem lexemesFrom_space {cs : List Char} (solid : ∀ c ∈ cs.head?, isBlank c = false)
    (offset : Nat) : lexemesFrom offset (' ' :: cs) = lexemesFrom (offset + 1) cs := by
  have alone : cs.takeWhile isBlank = [] := by
    cases cs with
    | nil => rfl
    | cons c cs => exact List.takeWhile_cons_of_neg (by simp [solid c rfl])
  have blank : isBlank ' ' = true := rfl
  have scanned : scan ' ' cs = ⟨none, 0⟩ := by
    rw [scan, if_pos blank, alone]
    rfl
  rw [lexemesFrom_cons, scanned, stopOf, scanned]
  rfl

/-- Written tokens do not start with a blank. -/
theorem isBlank_of_head_written {t : Token} (writable : t.Writable) (words : List (List Char)) :
    ∀ c ∈ ([' '].intercalate (t.text.toList :: words)).head?, isBlank c = false := by
  have member := (Token.takes_text writable).member
  have solid := isBlank_of_head member t.rule_not_skipped
  obtain ⟨d, ds, same, -⟩ := Rule.starts member
  rw [same] at solid ⊢
  rw [List.intercalate_cons_cons_left]
  exact solid

/-- The pieces of written tokens are the tokens: each ends at the blank after it. -/
theorem pieces_written {ts : List Token} (writable : ∀ t ∈ ts, t.Writable) (offset : Nat) :
    (lexemesFrom offset ([' '].intercalate (ts.map fun t => t.text.toList))).map Lexeme.piece =
      ts.map .token := by
  induction ts generalizing offset with
  | nil =>
      rw [List.map_nil, List.intercalate_nil, lexemesFrom]
      rfl
  | cons t ts ih =>
      obtain ⟨first, rest⟩ := List.forall_mem_cons.1 writable
      cases ts with
      | nil =>
          rw [List.map_cons, List.map_nil, List.intercalate_singleton,
            ← List.append_nil t.text.toList, lexemesFrom_text first (by simp), lexemesFrom]
          rfl
      | cons t' ts =>
          have solid := isBlank_of_head_written (rest t' List.mem_cons_self)
            (ts.map fun t => t.text.toList)
          rw [List.map_cons, List.map_cons, List.intercalate_cons_cons, List.append_assoc,
            lexemesFrom_text first (by simp [isBlank]), List.singleton_append,
            lexemesFrom_space solid, List.map_cons, List.map_cons]
          exact congrArg _ (ih rest _)

end Lexer

namespace Syntax

theorem tokensOf?_of_pieces {ls : List Lexeme} {ts : List Token}
    (pieces : ls.map Lexeme.piece = ts.map .token) :
    ∃ located, tokensOf? ls = .ok located ∧ located.map Located.token = ts := by
  induction ts generalizing ls with
  | nil =>
      cases List.map_eq_nil_iff.1 pieces
      exact ⟨[], rfl, rfl⟩
  | cons t ts ih =>
      obtain ⟨⟨piece, span⟩, ls, rfl, rfl, rest⟩ := List.map_eq_cons_iff.1 pieces
      obtain ⟨located, read, same⟩ := ih rest
      exact ⟨⟨t, span⟩ :: located, by rw [tokensOf?, read], by rw [List.map_cons, same]⟩

/-- Tokens that are written with a blank between any two are read again as they were.  In
particular, what stands between the quotes of a string is read as the characters of the string. -/
theorem tokenize_written :
    (∀ ts : List Token, (∀ t ∈ ts, t.Writable) →
      ∃ located, tokenize (String.intercalate " " (ts.map Token.text)) = .ok located ∧
        located.map Located.token = ts) ∧
    ∀ s : String, Text.Plain s.toList →
      Lexer.unescape (s.toList.flatMap Text.escapeChar) = s.toList := by
  refine ⟨fun ts writable => ?_, fun s plain => Text.unescape_escaped plain⟩
  have pieces := Lexer.pieces_written writable 0
  rw [tokenize, Lexeme.all, String.toList_intercalate, List.map_map]
  exact tokensOf?_of_pieces pieces

/-- A text with what starts a comment, quotes, backslashes, line ends and a null character. -/
def awkwardText : String := "\\\"//\\n\\\\\"\n\r\t\x00 ß"

/-- Tokens that would be read otherwise if they were written without blanks. -/
def awkward : List Token :=
  [.keyword .forKw, .ident "fort", .mark .star, .mark .starStar, .mark .starStarEq, .mark .slash,
   .mark .slash, .int 9223372036854775807, .int 0, .string awkwardText, .string ""]

theorem awkward_rereads :
    (∀ t ∈ awkward, t.Writable) ∧ Text.Plain awkwardText.toList ∧
      (∃ located, tokenize (String.intercalate " " (awkward.map Token.text)) = .ok located ∧
        located.map Located.token = awkward) ∧
      Lexer.unescape (awkwardText.toList.flatMap Text.escapeChar) = awkwardText.toList := by
  have plain : Text.Plain awkwardText.toList := by decide +kernel
  have isName : Token.Writable (.ident "fort") :=
    ⟨Lexer.mem_ident.2 ⟨'f', "ort".toList, by decide, List.all_eq_true.1 (by decide), rfl⟩,
      by rintro ⟨⟩ <;> decide⟩
  have writable : ∀ t ∈ awkward, t.Writable := by
    have high : (0 : Int64) ≤ 9223372036854775807 := by decide
    simp only [awkward, List.forall_mem_cons]
    exact ⟨trivial, isName, trivial, trivial, trivial, trivial, trivial, high, Int64.le_refl 0, plain,
      List.forall_mem_nil _, List.forall_mem_nil _⟩
  exact ⟨writable, plain, tokenize_written.1 awkward writable, tokenize_written.2 awkwardText plain⟩

end Syntax

end ScriptLang
