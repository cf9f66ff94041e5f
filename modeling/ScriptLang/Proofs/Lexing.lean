/-
# ScriptLang.Proofs.Lexing -- where matches end

Every match ends within the text (`Lexer.scan_more_le`), so lexemes stand one after
the other (`Lexer.lexemesFrom_ordered`).

A newline ends every match but those of blanks and of strings.  So the lexemes
before a newline that stands in no string are the same whether the text goes on
there or not (`Lexer.lexemesFrom_newline`).
-/
import Mathlib.Data.List.TakeWhile
import ScriptLang.Token.Lexer

namespace ScriptLang

set_option autoImplicit false

/-- Whether a range holds the byte at an offset. -/
def Span.Covers (s : Span) (offset : Nat) : Prop := s.start ≤ offset ∧ offset < s.stop

instance (s : Span) (offset : Nat) : Decidable (s.Covers offset) :=
  inferInstanceAs (Decidable (_ ∧ _))

def Lexeme.isString (l : Lexeme) : Bool :=
  match l.piece with
  | .token (.string _) => true
  | _ => false

namespace Lexer

/-! ## Matches end within the text -/

theorem isPrefix_fraction (cs : List Char) : fraction cs <+: cs := by
  unfold fraction
  split
  · dsimp only
    split
    · exact List.nil_prefix
    · exact List.cons_prefix_cons.2 ⟨rfl, List.takeWhile_prefix _⟩
  · exact List.nil_prefix

theorem isPrefix_signPart (cs : List Char) : signPart cs <+: cs := by
  unfold signPart
  split
  · exact List.cons_prefix_cons.2 ⟨rfl, List.nil_prefix⟩
  · exact List.cons_prefix_cons.2 ⟨rfl, List.nil_prefix⟩
  · exact List.nil_prefix

/-- Two parts of a text, one after the other. -/
theorem isPrefix_append {xs ys zs : List Char} (first : xs <+: zs) (second : ys <+: zs.drop xs.length) :
    xs ++ ys <+: zs := by
  obtain ⟨rest, rfl⟩ := first
  rw [List.drop_left] at second
  exact (List.prefix_append_right_inj xs).2 second

theorem isPrefix_exponent (cs : List Char) : exponent cs <+: cs := by
  unfold exponent
  split
  · split
    · dsimp only
      split
      · exact List.nil_prefix
      · exact List.cons_prefix_cons.2
          ⟨rfl, isPrefix_append (isPrefix_signPart _) (List.takeWhile_prefix _)⟩
    · exact List.nil_prefix
  · exact List.nil_prefix

theorem number_more_le (c : Char) (cs : List Char) : (number c cs).more ≤ cs.length := by
  let ds := cs.takeWhile isDigit
  let f := fraction (cs.drop ds.length)
  have whole : ds ++ f <+: cs := isPrefix_append (List.takeWhile_prefix isDigit) (isPrefix_fraction _)
  have tail : ds ++ f ++ exponent ((cs.drop ds.length).drop f.length) <+: cs := by
    refine isPrefix_append whole ?_
    rw [List.length_append, ← List.drop_drop]
    exact isPrefix_exponent _
  unfold number
  dsimp only
  split <;> split <;> exact tail.length_le

/-- The elements of a string are a part of the text, and so is the quote after them. -/
theorem isPrefix_stringBody (cs : List Char) :
    (stringBody cs).1 ++ (if (stringBody cs).2 then ['"'] else []) <+: cs := by
  fun_induction stringBody cs with
  | case1 => exact List.nil_prefix
  | case2 cs => exact List.cons_prefix_cons.2 ⟨rfl, List.nil_prefix⟩
  | case3 cs => exact List.nil_prefix
  | case4 c cs other rest ih =>
      exact List.cons_prefix_cons.2 ⟨rfl, List.cons_prefix_cons.2 ⟨rfl, ih⟩⟩
  | case5 => exact List.nil_prefix
  | case6 c cs noQuote noEscape notLast rest ih => exact List.cons_prefix_cons.2 ⟨rfl, ih⟩

theorem string_more_le (cs : List Char) : (string cs).more ≤ cs.length := by
  have part := (isPrefix_stringBody cs).length_le
  unfold string
  dsimp only
  split
  · rename_i closed
    rw [if_pos closed, List.length_append] at part
    exact part
  · rename_i unclosed
    rw [if_neg unclosed, List.append_nil] at part
    exact part

theorem word_more_le (c : Char) (cs : List Char) : (word c cs).more ≤ cs.length := by
  have part := (List.takeWhile_prefix isWordPart (l := cs)).length_le
  unfold word
  dsimp only
  split <;> exact part

theorem mem_of_foldl_longer {best : Option Mark} {ms : List Mark} {m : Mark}
    (found : ms.foldl longer best = some m) : m ∈ ms ∨ best = some m := by
  induction ms generalizing best with
  | nil => exact .inr found
  | cons first rest ih =>
      rcases ih found with later | now
      · exact .inl (List.mem_cons_of_mem _ later)
      · unfold longer at now
        split at now
        · cases now
          exact .inl List.mem_cons_self
        · split at now
          · cases now
            exact .inl List.mem_cons_self
          · exact .inr now

theorem isPrefix_of_mark? {cs : List Char} {m : Mark} (found : mark? cs = some m) :
    m.text.toList <+: cs := by
  rcases mem_of_foldl_longer found with member | none
  · exact List.isPrefixOf_iff_prefix.1 (List.mem_filter.1 member).2
  · cases none

/-- A match ends within the text. -/
theorem scan_more_le (c : Char) (cs : List Char) : (scan c cs).more ≤ cs.length := by
  unfold scan
  split
  · exact (List.takeWhile_prefix _).length_le
  · split
    · exact (List.takeWhile_prefix _).length_le
    · split
      · exact number_more_le c cs
      · split
        · exact word_more_le c cs
        · split
          · exact string_more_le cs
          · split
            · rename_i m found
              have part := (isPrefix_of_mark? found).length_le
              rw [String.length_toList, List.length_cons] at part
              exact Nat.sub_le_of_le_add part
            · exact Nat.zero_le _

/-! ## Lexemes one after the other -/

/-- Where the match at an offset ends. -/
def stopOf (offset : Nat) (c : Char) (cs : List Char) : Nat :=
  offset + c.utf8Size + Text.width (cs.take (scan c cs).more)

theorem lt_stopOf (offset : Nat) (c : Char) (cs : List Char) : offset < stopOf offset c cs := by
  have size := c.utf8Size_pos
  unfold stopOf
  omega

theorem lexemesFrom_cons (offset : Nat) (c : Char) (cs : List Char) :
    lexemesFrom offset (c :: cs) =
      (scan c cs).piece.toList.map (fun piece => ⟨piece, offset, stopOf offset c cs⟩) ++
        lexemesFrom (stopOf offset c cs) (cs.drop (scan c cs).more) := by
  rw [lexemesFrom]
  split
  · rename_i trivia
    rw [trivia]
    rfl
  · rename_i piece found
    rw [found]
    rfl

/-- Induction along the matches of a text: what holds of the text after a match holds of the text
from the match on. -/
@[elab_as_elim]
theorem matches_induction {motive : List Char → Prop} (nil : motive [])
    (cons : ∀ c cs, motive (cs.drop (scan c cs).more) → motive (c :: cs)) (cs : List Char) :
    motive cs := by
  induction length : cs.length using Nat.strong_induction_on generalizing cs with
  | _ n ih =>
      cases cs with
      | nil => exact nil
      | cons c cs =>
          refine cons c cs (ih _ ?_ _ rfl)
          rw [← length, List.length_drop, List.length_cons]
          omega

/-- Each lexeme starts where the one before it stops or later, and holds at least one byte. -/
theorem lexemesFrom_ordered (offset : Nat) (cs : List Char) :
    (lexemesFrom offset cs).Pairwise (fun l l' => l.span.stop ≤ l'.span.start) ∧
      ∀ l ∈ lexemesFrom offset cs, offset ≤ l.span.start ∧ l.span.start < l.span.stop := by
  induction cs using matches_induction generalizing offset with
  | nil =>
      rw [lexemesFrom]
      exact ⟨List.Pairwise.nil, List.forall_mem_nil _⟩
  | cons c cs ih =>
      obtain ⟨ordered, bounds⟩ := ih (stopOf offset c cs)
      have starts := lt_stopOf offset c cs
      rw [lexemesFrom_cons]
      cases (scan c cs).piece with
      | none =>
          refine ⟨ordered, fun l member => ?_⟩
          obtain ⟨after, inside⟩ := bounds l member
          exact ⟨by omega, inside⟩
      | some piece =>
          refine ⟨List.pairwise_cons.2 ⟨fun l member => (bounds l member).1, ordered⟩, ?_⟩
          intro l member
          rcases List.mem_cons.1 member with rfl | later
          · exact ⟨Nat.le_refl _, starts⟩
          · obtain ⟨after, inside⟩ := bounds l later
            exact ⟨by omega, inside⟩

/-! ## A newline ends a match -/

section Newline

variable {cs rest : List Char}

theorem takeWhile_newline {p : Char → Bool} (stops : p '\n' = false) :
    (cs ++ '\n' :: rest).takeWhile p = cs.takeWhile p := by
  rw [List.takeWhile_append]
  split
  · rename_i all
    rw [List.takeWhile_cons, stops]
    simp only [Bool.false_eq_true, if_false, List.append_nil]
    exact ((List.takeWhile_prefix p).eq_of_length all).symm
  · rfl

theorem fraction_cons (c : Char) (cs : List Char) :
    fraction (c :: cs) =
      if c = '.' ∧ (cs.takeWhile isDigit).isEmpty = false then c :: cs.takeWhile isDigit else [] := by
  unfold fraction
  split
  · rename_i same
    cases same
    dsimp only
    cases (List.takeWhile isDigit _).isEmpty <;> rfl
  · rename_i other
    rw [if_neg]
    rintro ⟨rfl, -⟩
    exact other _ rfl

theorem fraction_newline : fraction (cs ++ '\n' :: rest) = fraction cs := by
  cases cs with
  | nil => rfl
  | cons c cs =>
      rw [List.cons_append, fraction_cons, fraction_cons, takeWhile_newline (p := isDigit) rfl]

theorem signPart_cons (c : Char) (cs : List Char) :
    signPart (c :: cs) = if c = '+' ∨ c = '-' then [c] else [] := by
  unfold signPart
  split
  · rename_i same
    cases same
    rfl
  · rename_i same
    cases same
    rfl
  · rename_i noPlus noMinus
    rw [if_neg]
    rintro (rfl | rfl)
    · exact noPlus _ rfl
    · exact noMinus _ rfl

theorem signPart_newline : signPart (cs ++ '\n' :: rest) = signPart cs := by
  cases cs with
  | nil => rfl
  | cons c cs => rw [List.cons_append, signPart_cons, signPart_cons]

theorem drop_newline {xs : List Char} (part : xs <+: cs) :
    (cs ++ '\n' :: rest).drop xs.length = cs.drop xs.length ++ '\n' :: rest :=
  List.drop_append_of_le_length part.length_le

theorem exponent_newline : exponent (cs ++ '\n' :: rest) = exponent cs := by
  cases cs with
  | nil => rfl
  | cons c cs =>
      simp only [exponent, List.cons_append, signPart_newline, drop_newline (isPrefix_signPart cs),
        takeWhile_newline (p := isDigit) rfl]

theorem number_newline (c : Char) : number c (cs ++ '\n' :: rest) = number c cs := by
  simp only [number, takeWhile_newline (p := isDigit) rfl,
    drop_newline (List.takeWhile_prefix isDigit), fraction_newline,
    drop_newline (isPrefix_fraction (cs.drop (cs.takeWhile isDigit).length)), exponent_newline]

theorem word_newline (c : Char) : word c (cs ++ '\n' :: rest) = word c cs := by
  simp only [word, takeWhile_newline (p := isWordPart) rfl]

theorem isPrefixOf_newline {xs : List Char} (none : '\n' ∉ xs) :
    xs.isPrefixOf (cs ++ '\n' :: rest) = xs.isPrefixOf cs := by
  induction xs generalizing cs with
  | nil => rfl
  | cons x xs ih =>
      obtain ⟨other, none⟩ := not_or.1 (mt List.mem_cons.2 none)
      cases cs with
      | nil => simp [List.isPrefixOf, Ne.symm other]
      | cons c cs => simp only [List.cons_append, List.isPrefixOf, ih none]

theorem mark_text_newline : ∀ m ∈ Mark.all, '\n' ∉ m.text.toList := by
  decide

theorem mark?_newline : mark? (cs ++ '\n' :: rest) = mark? cs := by
  have same : Mark.all.filter (fun m => m.text.toList.isPrefixOf (cs ++ '\n' :: rest)) =
      Mark.all.filter fun m => m.text.toList.isPrefixOf cs :=
    List.filter_congr fun m member => isPrefixOf_newline (mark_text_newline m member)
  rw [mark?, same, mark?]

/-- A newline ends what is neither blank nor a string. -/
theorem scan_newline {c : Char} (solid : isBlank c = false) (plain : c ≠ '"') :
    scan c (cs ++ '\n' :: rest) = scan c cs := by
  have slashes : (cs ++ '\n' :: rest).head? = some '/' ↔ cs.head? = some '/' := by
    cases cs <;> simp
  have marks : mark? (c :: cs ++ '\n' :: rest) = mark? (c :: cs) := mark?_newline
  rw [List.cons_append] at marks
  simp only [scan, solid, plain, slashes, marks, number_newline, word_newline, Bool.false_eq_true,
    if_false, takeWhile_newline (p := fun c => decide (c ≠ '\n')) rfl]

end Newline

/-! ## Strings -/

theorem stringBody_plain {c : Char} (noQuote : c ≠ '"') (noEscape : c ≠ '\\') (cs : List Char) :
    stringBody (c :: cs) = (c :: (stringBody cs).1, (stringBody cs).2) :=
  stringBody.eq_5 c cs noQuote (fun _ _ same => absurd same noEscape)
    (fun same => absurd same noEscape)

theorem stringBody_escape {c : Char} (other : c ≠ '\n') (cs : List Char) :
    stringBody ('\\' :: c :: cs) = ('\\' :: c :: (stringBody cs).1, (stringBody cs).2) := by
  rw [stringBody, if_neg other]

theorem ne_escape {c : Char} {cs : List Char} (noEscape : ∀ d ds, c = '\\' → cs = d :: ds → False)
    (notLast : c = '\\' → cs = [] → False) : c ≠ '\\' := by
  intro same
  cases cs with
  | nil => exact notLast same rfl
  | cons d ds => exact noEscape d ds same rfl

/-- A string that has been closed does not look at what follows. -/
theorem stringBody_append {cs : List Char} (closed : (stringBody cs).2 = true) (ds : List Char) :
    stringBody (cs ++ ds) = stringBody cs := by
  fun_induction stringBody cs with
  | case1 => cases closed
  | case2 cs => rfl
  | case3 cs => cases closed
  | case4 c cs other rest ih =>
      rw [List.cons_append, List.cons_append, stringBody_escape other, ih closed]
  | case5 => cases closed
  | case6 c cs noQuote noEscape notLast rest ih =>
      rw [List.cons_append, stringBody_plain noQuote (ne_escape noEscape notLast), ih closed]

/-- A string that is closed later holds all that is left of the text. -/
theorem length_le_stringBody {cs ds : List Char} (unclosed : (stringBody cs).2 = false)
    (closed : (stringBody (cs ++ ds)).2 = true) : cs.length ≤ (stringBody (cs ++ ds)).1.length := by
  fun_induction stringBody cs with
  | case1 => exact Nat.zero_le _
  | case2 cs => cases unclosed
  | case3 cs => cases closed
  | case4 c cs other rest ih =>
      rw [List.cons_append, List.cons_append, stringBody_escape other] at closed ⊢
      exact Nat.succ_le_succ (Nat.succ_le_succ (ih unclosed closed))
  | case5 =>
      cases ds with
      | nil => cases closed
      | cons d ds =>
          by_cases newline : d = '\n'
          · subst newline
            cases closed
          · rw [List.singleton_append, stringBody_escape newline]
            exact Nat.succ_le_succ (Nat.zero_le _)
  | case6 c cs noQuote noEscape notLast rest ih =>
      rw [List.cons_append, stringBody_plain noQuote (ne_escape noEscape notLast)] at closed ⊢
      exact Nat.succ_le_succ (ih unclosed closed)

/-! ## Texts that are cut before a newline -/

/-- The match before a newline is the same without the newline, unless it goes over it. -/
theorem scan_cut (c : Char) (cs rest : List Char) :
    scan c (cs ++ '\n' :: rest) = scan c cs ∨
      (isBlank c = true ∧ cs.takeWhile isBlank = cs) ∨ (c = '"' ∧ (stringBody cs).2 = false) := by
  by_cases blank : isBlank c = true
  · by_cases all : (cs.takeWhile isBlank).length = cs.length
    · exact .inr (.inl ⟨blank, (List.takeWhile_prefix isBlank).eq_of_length all⟩)
    · left
      simp only [scan, blank, if_true, List.takeWhile_append, if_neg all]
  · have solid : isBlank c = false := Bool.eq_false_iff.2 blank
    by_cases quote : c = '"'
    · subst quote
      cases closed : (stringBody cs).2 with
      | false => exact .inr (.inr ⟨rfl, rfl⟩)
      | true =>
          left
          have same : string (cs ++ '\n' :: rest) = string cs := by
            simp only [string, stringBody_append closed]
          exact same
    · exact .inl (scan_newline solid quote)

theorem lexemesFrom_blank {c : Char} {cs : List Char} (blank : isBlank c = true)
    (all : cs.takeWhile isBlank = cs) (offset : Nat) : lexemesFrom offset (c :: cs) = [] := by
  have scanned : scan c cs = ⟨none, cs.length⟩ := by
    rw [scan, if_pos blank, all]
  rw [lexemesFrom_cons, scanned, List.drop_length, lexemesFrom]
  rfl

/-- A string that is not closed before a newline is bad, or the newline stands in it. -/
theorem string_over {cs rest : List Char} (unclosed : (stringBody cs).2 = false) (offset : Nat) :
    ∃ l ∈ lexemesFrom offset ('"' :: (cs ++ '\n' :: rest)), l.bad? ≠ none ∨
      l.isString = true ∧ l.span.Covers (offset + Text.width ('"' :: cs)) := by
  have scanned : scan '"' (cs ++ '\n' :: rest) = string (cs ++ '\n' :: rest) := rfl
  rw [lexemesFrom_cons, scanned, string]
  split
  · rename_i closed
    refine ⟨_, List.mem_append_left _ List.mem_cons_self, .inr ⟨rfl, ?_⟩⟩
    have more := length_le_stringBody unclosed closed
    have stop : (scan '"' (cs ++ '\n' :: rest)).more =
        (stringBody (cs ++ '\n' :: rest)).1.length + 1 := by
      rw [scanned, string, if_pos closed]
    refine ⟨Nat.le_add_right _ _, ?_⟩
    show offset + Text.width ('"' :: cs) < stopOf offset '"' (cs ++ '\n' :: rest)
    rw [stopOf, stop, List.take_append, List.take_of_length_le (Nat.le_succ_of_le more),
      Nat.sub_add_comm more, List.take_succ_cons, Text.width_append, Text.width, Text.width]
    have size := Char.utf8Size_pos '\n'
    omega
  · exact ⟨_, List.mem_append_left _ List.mem_cons_self, .inl (Option.some_ne_none _)⟩

/-- The lexemes before a newline that stands in no string are those of the text up to there. -/
theorem lexemesFrom_newline {offset : Nat} {front rest : List Char}
    (good : ∀ l ∈ lexemesFrom offset (front ++ '\n' :: rest), l.bad? = none)
    (outside : ∀ l ∈ lexemesFrom offset (front ++ '\n' :: rest), l.isString = true →
      ¬ l.span.Covers (offset + Text.width front)) :
    lexemesFrom offset front <+: lexemesFrom offset (front ++ '\n' :: rest) := by
  induction front using matches_induction generalizing offset with
  | nil =>
      rw [lexemesFrom]
      exact List.nil_prefix
  | cons c cs ih =>
      rcases scan_cut c cs rest with same | ⟨blank, all⟩ | ⟨rfl, unclosed⟩
      · have inside := scan_more_le c cs
        have stop : stopOf offset c (cs ++ '\n' :: rest) = stopOf offset c cs := by
          rw [stopOf, same, List.take_append_of_le_length inside, stopOf]
        have later : lexemesFrom offset (c :: cs ++ '\n' :: rest) =
            (scan c cs).piece.toList.map (fun piece => ⟨piece, offset, stopOf offset c cs⟩) ++
              lexemesFrom (stopOf offset c cs) (cs.drop (scan c cs).more ++ '\n' :: rest) := by
          rw [List.cons_append, lexemesFrom_cons, same, stop, List.drop_append_of_le_length inside]
        rw [later] at good outside ⊢
        rw [lexemesFrom_cons]
        have place : stopOf offset c cs + Text.width (cs.drop (scan c cs).more) =
            offset + Text.width (c :: cs) := by
          have split := Text.width_append (cs.take (scan c cs).more) (cs.drop (scan c cs).more)
          rw [List.take_append_drop] at split
          rw [stopOf, Text.width, split]
          omega
        refine (List.prefix_append_right_inj _).2 (ih ?_ ?_)
        · exact fun l member => good l (List.mem_append_right _ member)
        · rw [place]
          exact fun l member => outside l (List.mem_append_right _ member)
      · rw [lexemesFrom_blank blank all]
        exact List.nil_prefix
      · obtain ⟨l, member, bad | ⟨string, covers⟩⟩ := string_over unclosed offset
        · exact absurd (good l member) bad
        · exact absurd covers (outside l member string)

end Lexer

end ScriptLang
