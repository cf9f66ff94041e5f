/-
# ScriptLang.Proofs.Meanings -- what the word of a token stands for

A token has a rule and a value.  The value is what its word stands for
(`Token.Means`): the number of the digits, the floating-point number of the text, the
characters of a string without quotes and escapes, and the word itself for a name.
Rule and word determine the token (`Token.eq_of_means`).

The characters that string elements stand for are said by a relation that goes
element by element (`Unescapes`); `Lexer.unescape` computes them.
-/
import ScriptLang.Proofs.Lexing
import ScriptLang.Proofs.Numerals
import ScriptLang.Proofs.Rules

namespace ScriptLang

open scoped Computability

set_option autoImplicit false

/-! ## Strings -/

/-- The characters that have a meaning after a backslash, and what they mean there. -/
def escapes : List (Char × Char) :=
  [('n', '\n'), ('t', '\t'), ('r', '\r'), ('0', '\x00'), ('\\', '\\'), ('"', '"')]

/-- Whether string elements stand for characters.  A backslash stands for itself before a character
without a meaning there. -/
inductive Unescapes : List Char → List Char → Prop
  | nil : Unescapes [] []
  | plain {c : Char} {body cs : List Char} (noEscape : c ≠ '\\') (rest : Unescapes body cs) :
      Unescapes (c :: body) (c :: cs)
  | escape {c d : Char} {body cs : List Char} (listed : (c, d) ∈ escapes) (rest : Unescapes body cs) :
      Unescapes ('\\' :: c :: body) (d :: cs)
  | other {c : Char} {body cs : List Char} (unlisted : ∀ d, (c, d) ∉ escapes)
      (rest : Unescapes body cs) : Unescapes ('\\' :: c :: body) ('\\' :: c :: cs)

namespace Lexer

theorem elements_nil : [] ∈ elements := Language.nil_mem_kstar _

theorem elements_append {part body : List Char}
    (first : part ∈ single (fun c => c ≠ '"' && c ≠ '\\') + exactly "\\" * single (· ≠ '\n'))
    (rest : body ∈ elements) : part ++ body ∈ elements := by
  obtain ⟨parts, rfl, good⟩ := Language.mem_kstar.1 rest
  exact Language.mem_kstar.2 ⟨part :: parts, rfl, List.forall_mem_cons.2 ⟨first, good⟩⟩

theorem elements_plain {c : Char} (noQuote : c ≠ '"') (noEscape : c ≠ '\\') {body : List Char}
    (rest : body ∈ elements) : c :: body ∈ elements :=
  elements_append (.inl ⟨c, by simp [noQuote, noEscape], rfl⟩) rest

theorem elements_escape {c : Char} (inLine : c ≠ '\n') {body : List Char}
    (rest : body ∈ elements) : '\\' :: c :: body ∈ elements :=
  have pair : ['\\', c] ∈ single (fun c => c ≠ '"' && c ≠ '\\') + exactly "\\" * single (· ≠ '\n') :=
    .inr ⟨['\\'], rfl, [c], ⟨c, by simp [inLine], rfl⟩, rfl⟩
  elements_append pair rest

/-- Induction along the elements of a string. -/
theorem elements_induction {motive : (body : List Char) → body ∈ elements → Prop}
    (nil : motive [] elements_nil)
    (plain : ∀ c body (noQuote : c ≠ '"') (noEscape : c ≠ '\\') (rest : body ∈ elements),
      motive body rest → motive (c :: body) (elements_plain noQuote noEscape rest))
    (escape : ∀ c body (inLine : c ≠ '\n') (rest : body ∈ elements),
      motive body rest → motive ('\\' :: c :: body) (elements_escape inLine rest))
    {body : List Char} (member : body ∈ elements) : motive body member := by
  obtain ⟨parts, rfl, good⟩ := Language.mem_kstar.1 member
  induction parts with
  | nil => exact nil
  | cons part parts ih =>
      obtain ⟨first, good⟩ := List.forall_mem_cons.1 good
      have rest := ih good (Language.join_mem_kstar good)
      rcases first with ⟨c, solid, rfl⟩ | ⟨_, rfl, _, ⟨c, inLine, rfl⟩, rfl⟩
      · simp only [Bool.and_eq_true, decide_eq_true_eq] at solid
        exact plain c _ solid.1 solid.2 _ rest
      · exact escape c _ (of_decide_eq_true inLine) _ rest

/-- The elements of a string are read whatever follows them. -/
theorem stringBody_elements {body : List Char} (member : body ∈ elements) (more : List Char) :
    stringBody (body ++ more) = (body ++ (stringBody more).1, (stringBody more).2) := by
  induction member using elements_induction with
  | nil => rfl
  | plain c body noQuote noEscape rest ih =>
      rw [List.cons_append, stringBody_plain noQuote noEscape, ih, List.cons_append]
  | escape c body inLine rest ih =>
      rw [List.cons_append, List.cons_append, stringBody_escape inLine, ih, List.cons_append,
        List.cons_append]

theorem elements_stringBody (cs : List Char) : (stringBody cs).1 ∈ elements := by
  fun_induction stringBody cs with
  | case1 => exact elements_nil
  | case2 cs => exact elements_nil
  | case3 cs => exact elements_nil
  | case4 c cs other rest ih => exact elements_escape other ih
  | case5 => exact elements_nil
  | case6 c cs noQuote noEscape notLast rest ih =>
      exact elements_plain (fun same => noQuote same) (ne_escape noEscape notLast) ih

/-- The quote that closes a string is the first one outside of the elements. -/
theorem stringBody_quoted {body : List Char} (member : body ∈ elements) (rest : List Char) :
    stringBody (body ++ '"' :: rest) = (body, true) := by
  rw [stringBody_elements member, stringBody, List.append_nil]

theorem unescape_plain {c : Char} (noEscape : c ≠ '\\') (cs : List Char) :
    unescape (c :: cs) = c :: unescape cs := by
  rw [unescape.eq_def]
  split <;> simp_all

theorem unescape_escape {c d : Char} (listed : (c, d) ∈ escapes) (cs : List Char) :
    unescape ('\\' :: c :: cs) = d :: unescape cs := by
  simp only [escapes, List.mem_cons, List.not_mem_nil, or_false, Prod.mk.injEq] at listed
  rcases listed with ⟨rfl, rfl⟩ | ⟨rfl, rfl⟩ | ⟨rfl, rfl⟩ | ⟨rfl, rfl⟩ | ⟨rfl, rfl⟩ | ⟨rfl, rfl⟩ <;>
    rw [unescape]

theorem unescape_other {c : Char} (unlisted : ∀ d, (c, d) ∉ escapes) (cs : List Char) :
    unescape ('\\' :: c :: cs) = '\\' :: c :: unescape cs := by
  have different : ∀ p ∈ escapes, c ≠ p.1 := by
    rintro ⟨c', d⟩ listed rfl
    exact unlisted d listed
  simp only [escapes, List.forall_mem_cons] at different
  obtain ⟨n, t, r, zero, escape, quote, -⟩ := different
  rw [unescape.eq_8, unescape_plain escape] <;> simp_all

/-- String elements stand for what is computed from them, and for nothing else. -/
theorem unescapes_iff {body cs : List Char} (member : body ∈ elements) :
    Unescapes body cs ↔ unescape body = cs := by
  constructor
  · intro stands
    clear member
    induction stands with
    | nil => rw [unescape]
    | plain noEscape rest ih => rw [unescape_plain noEscape, ih]
    | escape listed rest ih => rw [unescape_escape listed, ih]
    | other unlisted rest ih => rw [unescape_other unlisted, ih]
  · rintro rfl
    induction member using elements_induction with
    | nil =>
        rw [unescape]
        exact .nil
    | plain c body noQuote noEscape rest ih =>
        rw [unescape_plain noEscape]
        exact .plain noEscape ih
    | escape c body inLine rest ih =>
        by_cases listed : ∃ d, (c, d) ∈ escapes
        · obtain ⟨d, listed⟩ := listed
          rw [unescape_escape listed]
          exact .escape listed ih
        · have unlisted : ∀ d, (c, d) ∉ escapes := not_exists.1 listed
          rw [unescape_other unlisted]
          exact .other unlisted ih

end Lexer

/-! ## Tokens -/

namespace Token

/-- The rule of a token. -/
def rule : Token → Lexer.Rule
  | .keyword k => .keyword k
  | .mark m => .mark m
  | .int _ => .int
  | .float _ => .float
  | .string _ => .string
  | .ident _ => .ident

theorem rule_not_skipped (t : Token) : ¬ t.rule.IsSkipped := by
  cases t <;> rintro (⟨⟨⟩⟩ | ⟨⟨⟩⟩)

/-- Whether a token is what a word of its rule stands for. -/
def Means (word : List Char) : Token → Prop
  | .keyword k => k.text.toList = word
  | .mark m => m.text.toList = word
  | .int n => n.toInt = (Nat.ofDigitChars 10 word 0 : Int)
  | .float x => Reading.float? word = some x
  | .string s => ∃ body, body ∈ Lexer.elements ∧ '"' :: (body ++ ['"']) = word ∧
      Unescapes body s.toList
  | .ident name => name.toList = word

theorem eq_of_means {t t' : Token} {word : List Char} (same : t.rule = t'.rule)
    (means : t.Means word) (means' : t'.Means word) : t = t' := by
  cases t with
  | keyword k =>
      cases t' <;> cases same
      rfl
  | mark m =>
      cases t' <;> cases same
      rfl
  | int n =>
      cases t' <;> cases same
      exact congrArg _ (Int64.toInt_inj.1 (means.trans means'.symm))
  | float x =>
      cases t' <;> cases same
      exact congrArg _ (Option.some.inj (means.symm.trans means'))
  | string s =>
      cases t' <;> cases same
      obtain ⟨body, member, rfl, stands⟩ := means
      obtain ⟨body', -, equal, stands'⟩ := means'
      cases List.append_cancel_right (List.cons.inj equal).2
      have text := (Lexer.unescapes_iff member).1 stands
      have text' := (Lexer.unescapes_iff member).1 stands'
      exact congrArg _ (String.toList_inj.1 (text.symm.trans text'))
  | ident name =>
      cases t' <;> cases same
      exact congrArg _ (String.toList_inj.1 (means.trans means'.symm))

end Token

end ScriptLang
