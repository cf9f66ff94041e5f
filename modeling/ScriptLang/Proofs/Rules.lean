/-
# ScriptLang.Proofs.Rules -- the words of the language, as regular languages

What a token or a gap may look like is said by rules.  A rule is a regular language
(`Rule.language`), put together from classes of characters by sequence, choice and
repetition; it does not say how its words are found.  No rule matches the empty word,
and the first character of a text leaves a few rules that can match there
(`Rule.starts`).

Where words of several rules stand at the start of a text, the longest word is taken,
and among the rules of that word the one of highest priority (`Longest`).  There is at
most one such word and rule (`Longest.unique`).
-/
import Mathlib.Computability.Language
import Mathlib.Data.List.Nodup
import Mathlib.Data.List.TakeWhile
import ScriptLang.Token.Lexer

namespace ScriptLang

open scoped Computability

set_option autoImplicit false

/-! ## Keywords and marks -/

theorem Mark.mem_all (m : Mark) : m ∈ Mark.all := by
  cases m <;> decide

theorem Mark.text_injective : Function.Injective Mark.text := by
  intro m m' same
  have nodup : (Mark.all.map Mark.text).Nodup := by decide
  exact List.inj_on_of_nodup_map nodup (Mark.mem_all m) (Mark.mem_all m') same

theorem Keyword.mem_all (k : Keyword) : k ∈ Keyword.all := by
  cases k <;> decide

theorem Keyword.text_injective : Function.Injective Keyword.text := by
  intro k k' same
  have nodup : (Keyword.all.map Keyword.text).Nodup := by decide
  exact List.inj_on_of_nodup_map nodup (Keyword.mem_all k) (Keyword.mem_all k') same

namespace Lexer

/-! ## Rules -/

/-- Any one character of a class. -/
def single (p : Char → Bool) : Language Char := {w | ∃ c, p c = true ∧ w = [c]}

/-- One or more characters of a class. -/
def row (p : Char → Bool) : Language Char := single p * (single p)∗

/-- The one word that a text is. -/
def exactly (s : String) : Language Char := {s.toList}

/-- A point and digits. -/
def fractions : Language Char := exactly "." * row isDigit

/-- A mark, an optional sign and digits. -/
def exponents : Language Char :=
  (exactly "e" + exactly "E") * (1 + exactly "+" + exactly "-") * row isDigit

/-- What may stand between the quotes of a string: characters, and pairs of a backslash and a
character that does not end the line. -/
def elements : Language Char :=
  (single (fun c => c ≠ '"' && c ≠ '\\') + exactly "\\" * single (· ≠ '\n'))∗

/-- The rules: two for what is skipped, and those of the tokens. -/
inductive Rule where
  | blanks
  | comment
  | keyword (k : Keyword)
  | mark (m : Mark)
  | float
  | int
  | string
  | ident
deriving DecidableEq

namespace Rule

/-- The words that a rule matches. -/
def language : Rule → Language Char
  | .blanks => row isBlank
  | .comment => exactly "//" * (single (· ≠ '\n'))∗
  | .keyword k => exactly k.text
  | .mark m => exactly m.text
  | .float => row isDigit * fractions * (1 + exponents) + row isDigit * exponents
  | .int => row isDigit
  | .string => exactly "\"" * elements * exactly "\""
  | .ident => single isWordStart * (single isWordPart)∗

/-- Which of two rules is taken if both match the same word.  Three numbers are given; the others
count two for each character that a word of the rule must have and one for a character of a class. -/
def priority : Rule → Nat
  | .blanks => 1
  | .comment => 4
  | .keyword k => 2 * k.text.length
  | .mark m => 2 * m.text.length
  | .float => 3
  | .int => 2
  | .string => 4
  | .ident => 1

/-- The rules of what is skipped. -/
def IsSkipped (r : Rule) : Prop := r = .blanks ∨ r = .comment

end Rule

/-- Whether a rule has the highest priority of those that match a word. -/
structure Rule.Takes (r : Rule) (word : List Char) : Prop where
  member : word ∈ r.language
  highest : ∀ r' : Rule, word ∈ r'.language → r' ≠ r → r'.priority < r.priority

/-- Whether a word at the start of a text is the longest that a rule matches there, and is taken by
a rule. -/
structure Longest (text word : List Char) (r : Rule) : Prop extends r.Takes word where
  starts : word <+: text
  longest : ∀ r' : Rule, ∀ w ∈ r'.language, w <+: text → w.length ≤ word.length

theorem Longest.unique {text word word' : List Char} {r r' : Rule} (first : Longest text word r)
    (second : Longest text word' r') : word = word' ∧ r = r' := by
  have length : word.length = word'.length :=
    Nat.le_antisymm (second.longest r word first.member first.starts)
      (first.longest r' word' second.member second.starts)
  have same : word = word' :=
    (List.prefix_of_prefix_length_le first.starts second.starts length.le).eq_of_length length
  subst same
  refine ⟨rfl, ?_⟩
  by_contra other
  have below := first.highest r' second.member (Ne.symm other)
  have above := second.highest r first.member other
  omega

/-! ## Words -/

theorem mem_single {p : Char → Bool} {w : List Char} :
    w ∈ single p ↔ ∃ c, p c = true ∧ w = [c] := Iff.rfl

theorem mem_exactly {s : String} {w : List Char} : w ∈ exactly s ↔ w = s.toList := Iff.rfl

theorem mem_single_star {p : Char → Bool} {w : List Char} :
    w ∈ (single p)∗ ↔ ∀ c ∈ w, p c = true := by
  rw [Language.mem_kstar]
  constructor
  · rintro ⟨parts, rfl, singles⟩ c member
    obtain ⟨part, listed, member⟩ := List.mem_flatten.1 member
    obtain ⟨d, good, rfl⟩ := singles part listed
    rwa [List.mem_singleton.1 member]
  · intro good
    refine ⟨w.map fun c => [c], ?_, ?_⟩
    · rw [← List.flatMap_def, List.flatMap_singleton']
    · exact List.forall_mem_map.2 fun c member => ⟨c, good c member, rfl⟩

theorem mem_row {p : Char → Bool} {w : List Char} :
    w ∈ row p ↔ w ≠ [] ∧ ∀ c ∈ w, p c = true := by
  simp only [row, Language.mem_mul, mem_single, mem_single_star]
  constructor
  · rintro ⟨_, ⟨c, good, rfl⟩, cs, rest, rfl⟩
    exact ⟨List.cons_ne_nil _ _, List.forall_mem_cons.2 ⟨good, rest⟩⟩
  · rintro ⟨nonempty, good⟩
    obtain ⟨c, cs, rfl⟩ := List.exists_cons_of_ne_nil nonempty
    obtain ⟨first, rest⟩ := List.forall_mem_cons.1 good
    exact ⟨[c], ⟨c, first, rfl⟩, cs, rest, rfl⟩

theorem mem_fractions {w : List Char} :
    w ∈ fractions ↔ ∃ ds ∈ row isDigit, w = '.' :: ds := by
  simp only [fractions, Language.mem_mul, mem_exactly, exists_eq_left, eq_comm (b := w)]
  rfl

theorem mem_exponents {w : List Char} :
    w ∈ exponents ↔ ∃ c s, ∃ ds ∈ row isDigit, (c = 'e' ∨ c = 'E') ∧
      (s = [] ∨ s = ['+'] ∨ s = ['-']) ∧ w = c :: (s ++ ds) := by
  simp only [exponents, Language.mem_mul, Language.mem_add, Language.mem_one, mem_exactly]
  constructor
  · rintro ⟨_, ⟨_, mark, s, sign, rfl⟩, ds, digits, rfl⟩
    rcases mark with rfl | rfl
    · exact ⟨'e', s, ds, digits, .inl rfl, or_assoc.1 sign, rfl⟩
    · exact ⟨'E', s, ds, digits, .inr rfl, or_assoc.1 sign, rfl⟩
  · rintro ⟨c, s, ds, digits, mark, sign, rfl⟩
    refine ⟨c :: s, ⟨[c], ?_, s, or_assoc.2 sign, rfl⟩, ds, digits, rfl⟩
    rcases mark with rfl | rfl
    · exact .inl rfl
    · exact .inr rfl

theorem mem_comment {w : List Char} :
    w ∈ Rule.comment.language ↔ ∃ line, '\n' ∉ line ∧ w = '/' :: '/' :: line := by
  simp only [Rule.language, Language.mem_mul, mem_exactly, exists_eq_left, mem_single_star,
    decide_eq_true_eq]
  constructor
  · rintro ⟨line, inLine, rfl⟩
    exact ⟨line, fun ends => inLine _ ends rfl, rfl⟩
  · rintro ⟨line, inLine, rfl⟩
    refine ⟨line, ?_, rfl⟩
    rintro c member rfl
    exact inLine member

theorem mem_ident {w : List Char} :
    w ∈ Rule.ident.language ↔
      ∃ c cs, isWordStart c = true ∧ (∀ d ∈ cs, isWordPart d = true) ∧ w = c :: cs := by
  simp only [Rule.language, Language.mem_mul, mem_single, mem_single_star]
  constructor
  · rintro ⟨_, ⟨c, start, rfl⟩, cs, parts, rfl⟩
    exact ⟨c, cs, start, parts, rfl⟩
  · rintro ⟨c, cs, start, parts, rfl⟩
    exact ⟨[c], ⟨c, start, rfl⟩, cs, parts, rfl⟩

theorem mem_string {w : List Char} :
    w ∈ Rule.string.language ↔ ∃ body ∈ elements, w = '"' :: (body ++ ['"']) := by
  simp only [Rule.language, Language.mem_mul, mem_exactly, exists_eq_left, exists_exists_and_eq_and,
    eq_comm (b := w)]
  rfl

/-- A floating-point number is digits with a fraction, an exponent or both. -/
theorem mem_float {w : List Char} :
    w ∈ Rule.float.language ↔ ∃ ds ∈ row isDigit, ∃ f x, w = ds ++ f ++ x ∧
      (f = [] ∨ f ∈ fractions) ∧ (x = [] ∨ x ∈ exponents) ∧ ¬ (f = [] ∧ x = []) := by
  have solid : [] ∉ fractions := by simp [mem_fractions]
  have solid' : [] ∉ exponents := by simp [mem_exponents]
  simp only [Rule.language, Language.mem_mul, Language.mem_add, Language.mem_one]
  constructor
  · rintro (⟨_, ⟨ds, digits, f, fraction, rfl⟩, x, exponent, rfl⟩ | ⟨ds, digits, x, exponent, rfl⟩)
    · exact ⟨ds, digits, f, x, rfl, .inr fraction, exponent, fun none => solid (none.1 ▸ fraction)⟩
    · exact ⟨ds, digits, [], x, by rw [List.append_nil], .inl rfl, .inr exponent,
        fun none => solid' (none.2 ▸ exponent)⟩
  · rintro ⟨ds, digits, f, x, rfl, rfl | fraction, exponent, some⟩
    · have exponent := exponent.resolve_left fun none => some ⟨rfl, none⟩
      exact .inr ⟨ds, digits, x, exponent, by rw [List.append_nil]⟩
    · exact .inl ⟨ds ++ f, ⟨ds, digits, f, fraction, rfl⟩, x, exponent, rfl⟩

/-- What follows the whole part of a number starts with no digit. -/
theorem notDigit_of_tail {f x : List Char} (fraction : f = [] ∨ f ∈ fractions)
    (exponent : x = [] ∨ x ∈ exponents) : ∀ c ∈ (f ++ x).head?, isDigit c = false := by
  rcases fraction with rfl | fraction
  · rcases exponent with rfl | exponent
    · exact nofun
    · obtain ⟨c, s, ds, -, mark, -, rfl⟩ := mem_exponents.1 exponent
      rintro c' ⟨⟩
      rcases mark with rfl | rfl <;> rfl
  · obtain ⟨ds, -, rfl⟩ := mem_fractions.1 fraction
    rintro c ⟨⟩
    rfl

/-! ## First characters -/

theorem of_isBlank {c : Char} (blank : isBlank c = true) :
    isDigit c = false ∧ isWordStart c = false ∧ c ≠ '"' ∧ c ≠ '/' := by
  simp only [isBlank, Bool.or_eq_true, decide_eq_true_eq] at blank
  rcases blank with ((rfl | rfl) | rfl) | rfl <;> decide

theorem of_isDigit {c : Char} (digit : isDigit c = true) :
    isBlank c = false ∧ isWordStart c = false ∧ c ≠ '"' ∧ c ≠ '/' := by
  have solid : isBlank c = false := by
    rw [← Bool.not_eq_true]
    intro blank
    rw [(of_isBlank blank).1] at digit
    cases digit
  have noWord : isWordStart c = false := by
    simp only [isDigit, Reading.isDigit, Bool.and_eq_true, decide_eq_true_eq, Char.le_def,
      UInt32.le_iff_toNat_le] at digit
    have high : c.val.toNat ≤ 57 := digit.2
    simp only [isWordStart, Bool.or_eq_false_iff, Bool.and_eq_false_iff, decide_eq_false_iff_not,
      Char.le_def, UInt32.le_iff_toNat_le]
    refine ⟨⟨.inl ?_, .inl ?_⟩, ?_⟩
    · show ¬ 97 ≤ c.val.toNat
      omega
    · show ¬ 65 ≤ c.val.toNat
      omega
    · rintro rfl
      exact absurd high (by decide)
  refine ⟨solid, noWord, ?_, ?_⟩ <;> rintro rfl <;> cases digit

theorem of_isWordStart {c : Char} (start : isWordStart c = true) :
    isBlank c = false ∧ isDigit c = false ∧ c ≠ '"' ∧ c ≠ '/' := by
  refine ⟨?_, ?_, ?_, ?_⟩
  · rw [← Bool.not_eq_true]
    intro blank
    rw [(of_isBlank blank).2.1] at start
    cases start
  · rw [← Bool.not_eq_true]
    intro digit
    rw [(of_isDigit digit).2.1] at start
    cases start
  · rintro rfl
    cases start
  · rintro rfl
    cases start

/-- A mark starts with a character that starts nothing else but a comment. -/
theorem of_head_mark (m : Mark) : ∀ c ∈ m.text.toList.head?,
    isBlank c = false ∧ isDigit c = false ∧ isWordStart c = false ∧ c ≠ '"' := by
  cases m <;> rintro c ⟨⟩ <;> decide

namespace Rule

/-- Whether a word of a rule can start with a character. -/
def StartsWith (c : Char) : Rule → Prop
  | .blanks => isBlank c = true
  | .comment => c = '/'
  | .keyword _ => isWordStart c = true
  | .mark m => m.text.toList.head? = some c
  | .float | .int => isDigit c = true
  | .string => c = '"'
  | .ident => isWordStart c = true

theorem isWord_keyword (k : Keyword) :
    ∃ c cs, isWordStart c = true ∧ (∀ d ∈ cs, isWordPart d = true) ∧ k.text.toList = c :: cs := by
  cases k <;> exact ⟨_, _, by decide, List.all_eq_true.1 (by decide), rfl⟩

/-- The first character of a word tells which rules can match it; none matches the empty word. -/
theorem starts {r : Rule} {w : List Char} (member : w ∈ r.language) :
    ∃ c cs, w = c :: cs ∧ r.StartsWith c := by
  have first {p : Char → Bool} {w : List Char} (member : w ∈ row p) (rest : List Char) :
      ∃ c cs, w ++ rest = c :: cs ∧ p c = true := by
    obtain ⟨nonempty, good⟩ := mem_row.1 member
    obtain ⟨c, cs, rfl⟩ := List.exists_cons_of_ne_nil nonempty
    exact ⟨c, cs ++ rest, rfl, good c List.mem_cons_self⟩
  cases r with
  | blanks =>
      rw [← List.append_nil w]
      exact first member []
  | comment =>
      obtain ⟨line, -, rfl⟩ := mem_comment.1 member
      exact ⟨_, _, rfl, rfl⟩
  | keyword k =>
      obtain ⟨c, cs, start, -, same⟩ := isWord_keyword k
      exact ⟨c, cs, (mem_exactly.1 member).trans same, start⟩
  | mark m =>
      cases mem_exactly.1 member
      cases m <;> exact ⟨_, _, rfl, rfl⟩
  | float =>
      obtain ⟨ds, digits, f, x, rfl, -⟩ := mem_float.1 member
      rw [List.append_assoc]
      exact first digits _
  | int =>
      rw [← List.append_nil w]
      exact first member []
  | string =>
      obtain ⟨body, -, rfl⟩ := mem_string.1 member
      exact ⟨_, _, rfl, rfl⟩
  | ident =>
      obtain ⟨c, cs, start, -, rfl⟩ := mem_ident.1 member
      exact ⟨c, cs, rfl, start⟩

/-- What starts a text starts with its first character. -/
theorem startsWith_of_isPrefix {r : Rule} {w : List Char} {c : Char} {cs : List Char}
    (member : w ∈ r.language) (starts : w <+: c :: cs) : r.StartsWith c := by
  obtain ⟨d, ds, rfl, first⟩ := Rule.starts member
  rwa [(List.cons_prefix_cons.1 starts).1] at first

theorem startsWith_of_mem {r : Rule} {c : Char} {cs : List Char} (member : c :: cs ∈ r.language) :
    r.StartsWith c :=
  startsWith_of_isPrefix member (List.prefix_refl _)

variable {r : Rule} {c : Char}

theorem eq_of_isBlank (blank : isBlank c = true) (starts : r.StartsWith c) : r = .blanks := by
  obtain ⟨noDigit, noWord, noQuote, noSlash⟩ := of_isBlank blank
  cases r with
  | blanks => rfl
  | mark m =>
      have solid := (of_head_mark m c starts).1
      rw [blank] at solid
      cases solid
  | _ => simp_all [StartsWith]

theorem eq_of_isDigit (digit : isDigit c = true) (starts : r.StartsWith c) :
    r = .float ∨ r = .int := by
  obtain ⟨solid, noWord, noQuote, noSlash⟩ := of_isDigit digit
  cases r with
  | float => exact .inl rfl
  | int => exact .inr rfl
  | mark m =>
      have other := (of_head_mark m c starts).2.1
      rw [digit] at other
      cases other
  | _ => simp_all [StartsWith]

theorem eq_of_isWordStart (start : isWordStart c = true) (starts : r.StartsWith c) :
    (∃ k, r = .keyword k) ∨ r = .ident := by
  obtain ⟨solid, noDigit, noQuote, noSlash⟩ := of_isWordStart start
  cases r with
  | keyword k => exact .inl ⟨k, rfl⟩
  | ident => exact .inr rfl
  | mark m =>
      have other := (of_head_mark m c starts).2.2.1
      rw [start] at other
      cases other
  | _ => simp_all [StartsWith]

theorem eq_of_quote (starts : r.StartsWith '"') : r = .string := by
  cases r with
  | string => rfl
  | mark m => exact absurd rfl (of_head_mark m _ starts).2.2.2
  | _ => cases starts

/-- What is left are marks and comments. -/
theorem eq_of_other (solid : isBlank c = false) (noDigit : isDigit c = false)
    (noWord : isWordStart c = false) (noQuote : c ≠ '"') (starts : r.StartsWith c) :
    (r = .comment ∧ c = '/') ∨ ∃ m, r = .mark m ∧ m.text.toList.head? = some c := by
  cases r with
  | comment => exact .inl ⟨rfl, starts⟩
  | mark m => exact .inr ⟨m, rfl, starts⟩
  | _ => simp_all [StartsWith]

end Rule

/-! ## Rules that take a word -/

theorem length_mark_of_slash (m : Mark) (slash : m.text.toList.head? = some '/') :
    m.text.toList.length ≤ 2 := by
  revert slash
  cases m <;> decide

theorem not_slashes_prefix_mark (m : Mark) : ¬ ['/', '/'] <+: m.text.toList := by
  cases m <;> decide

namespace Rule

variable {w : List Char}

theorem Takes.of_only {r : Rule} (member : w ∈ r.language)
    (only : ∀ r' : Rule, w ∈ r'.language → r' = r) : r.Takes w :=
  ⟨member, fun r' also other => absurd (only r' also) other⟩

theorem takes_blanks (member : w ∈ Rule.blanks.language) : Rule.blanks.Takes w := by
  refine .of_only member fun r also => ?_
  obtain ⟨c, cs, rfl, blank⟩ := Rule.starts member
  exact eq_of_isBlank blank (startsWith_of_mem also)

theorem takes_comment (member : w ∈ Rule.comment.language) : Rule.comment.Takes w := by
  refine .of_only member fun r also => ?_
  obtain ⟨line, -, rfl⟩ := mem_comment.1 member
  obtain ⟨rfl, -⟩ | ⟨m, rfl, -⟩ := eq_of_other rfl rfl rfl (by decide)
    (startsWith_of_mem also)
  · rfl
  · exact absurd ⟨line, mem_exactly.1 also⟩ (not_slashes_prefix_mark m)

/-- All characters of an integer are digits, and those of a floating-point number are not. -/
theorem takes_int (member : w ∈ Rule.int.language) : Rule.int.Takes w := by
  refine .of_only member fun r also => ?_
  obtain ⟨c, cs, rfl, digit⟩ := Rule.starts member
  refine (eq_of_isDigit digit (startsWith_of_mem also)).resolve_left ?_
  rintro rfl
  obtain ⟨ds, -, f, x, same, fraction, exponent, some⟩ := mem_float.1 also
  obtain ⟨d, more, tail⟩ : ∃ d more, f ++ x = d :: more :=
    List.exists_cons_of_ne_nil fun none => some (List.append_eq_nil_iff.1 none)
  have noDigit := notDigit_of_tail fraction exponent d (by rw [tail]; rfl)
  rw [List.append_assoc, tail] at same
  have digit := (mem_row.1 member).2 d (by simp [same])
  rw [noDigit] at digit
  cases digit

/-- A floating-point number comes before an integer. -/
theorem takes_float (member : w ∈ Rule.float.language) : Rule.float.Takes w := by
  refine ⟨member, fun r also other => ?_⟩
  obtain ⟨c, cs, rfl, digit⟩ := Rule.starts member
  cases (eq_of_isDigit digit (startsWith_of_mem also)).resolve_left other
  decide

/-- A keyword comes before an identifier. -/
theorem takes_keyword (k : Keyword) : (Rule.keyword k).Takes k.text.toList := by
  refine ⟨rfl, fun r also other => ?_⟩
  obtain ⟨c, cs, start, -, same⟩ := isWord_keyword k
  rw [same] at also
  obtain ⟨k', rfl⟩ | rfl := eq_of_isWordStart start (startsWith_of_mem also)
  · cases Keyword.text_injective (String.toList_inj.1 (same.trans (mem_exactly.1 also)))
    exact absurd rfl other
  · cases k <;> decide

theorem takes_ident (member : w ∈ Rule.ident.language)
    (noKeyword : ∀ k : Keyword, k.text.toList ≠ w) : Rule.ident.Takes w := by
  refine .of_only member fun r also => ?_
  obtain ⟨c, cs, rfl, start⟩ := Rule.starts member
  refine (eq_of_isWordStart start (startsWith_of_mem also)).resolve_left ?_
  rintro ⟨k, rfl⟩
  exact noKeyword k (mem_exactly.1 also).symm

theorem takes_string (member : w ∈ Rule.string.language) : Rule.string.Takes w := by
  refine .of_only member fun r also => ?_
  obtain ⟨body, -, rfl⟩ := mem_string.1 member
  exact eq_of_quote (startsWith_of_mem also)

theorem takes_mark (m : Mark) : (Rule.mark m).Takes m.text.toList := by
  refine .of_only rfl fun r also => ?_
  obtain ⟨c, cs, same, start⟩ := Rule.starts (r := .mark m) rfl
  obtain ⟨solid, noDigit, noWord, noQuote⟩ := of_head_mark m c start
  have first : r.StartsWith c := startsWith_of_mem (same ▸ also)
  obtain ⟨rfl, -⟩ | ⟨m', rfl, -⟩ := eq_of_other solid noDigit noWord noQuote first
  · obtain ⟨line, -, same⟩ := mem_comment.1 also
    exact absurd ⟨line, same.symm⟩ (not_slashes_prefix_mark m)
  · rw [Mark.text_injective (String.toList_inj.1 (mem_exactly.1 also))]

end Rule

end Lexer

end ScriptLang
