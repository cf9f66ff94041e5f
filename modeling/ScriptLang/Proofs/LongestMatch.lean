/-
# ScriptLang.Proofs.LongestMatch -- the longest match is taken

A match is measured by looking at the first character and scanning from there.  The
rules say nothing about scanning; here both come together.  At every position the
match is what the rules ask for (`scan_matched`): its word is the longest that a rule
matches there, what it is taken for belongs to the rule of highest priority, and a
bad piece is either matched by no rule or a number that is too large.

Since word and rule are determined, so is the token, and the converse holds too: a
token that the rules ask for is the one that is scanned (`scan_of_longest`).

For marks and names the longest word is found at once.  A number may go on in several
ways, and what looks like a fraction or an exponent may turn out to be none; its parts
are compared one after the other (`NumberParts`).
-/
import ScriptLang.Proofs.Covering
import ScriptLang.Proofs.Meanings

namespace ScriptLang

open scoped Computability

set_option autoImplicit false

/-! ## Numbers without a sign -/

namespace Reading

theorem toLower_of_isDigit {c : Char} (digit : isDigit c = true) : c.toLower = c := by
  have upper : ¬ (c.val ≥ 'A'.val ∧ c.val ≤ 'Z'.val) := by
    simp only [isDigit, Bool.and_eq_true, decide_eq_true_eq, Char.le_def, ge_iff_le,
      UInt32.le_iff_toNat_le] at digit ⊢
    have high : c.val.toNat ≤ 57 := digit.2
    rintro ⟨low, -⟩
    have low : 65 ≤ c.val.toNat := low
    omega
  exact dif_neg upper

/-- What starts with a digit has no sign and names no special number. -/
theorem float?_of_isDigit {c : Char} (digit : isDigit c = true) (cs : List Char) :
    float? (c :: cs) = decimal? (c :: cs) := by
  have plain (s : String) (other : s.toList.head? ≠ some c) : lower (c :: cs) ≠ s.toList := by
    intro same
    rw [lower, List.map_cons, toLower_of_isDigit digit] at same
    exact other (same ▸ rfl)
  have noI : 'i' ≠ c := by
    rintro rfl
    cases digit
  have noN : 'n' ≠ c := by
    rintro rfl
    cases digit
  have special : (decide (lower (c :: cs) = "inf".toList) ||
      decide (lower (c :: cs) = "infinity".toList)) = false := by
    rw [Bool.or_eq_false_iff, decide_eq_false_iff_not, decide_eq_false_iff_not]
    exact ⟨plain "inf" fun same => noI (Option.some.inj same),
      plain "infinity" fun same => noI (Option.some.inj same)⟩
  have number : magnitude? (c :: cs) = decimal? (c :: cs) := by
    rw [magnitude?, special, if_neg Bool.false_ne_true,
      if_neg (plain "nan" fun same => noN (Option.some.inj same))]
  rw [float?, sign_of_isDigit digit]
  simp only [number, Bool.false_eq_true, if_false, Option.map_id_fun', id_eq]

end Reading

namespace Lexer

/-! ## Runs of characters of a class -/

section

variable {p : Char → Bool} {cs : List Char}

theorem length_le_takeWhile {w : List Char} (good : ∀ c ∈ w, p c = true) (starts : w <+: cs) :
    w.length ≤ (cs.takeWhile p).length := by
  obtain ⟨rest, rfl⟩ := starts
  rw [List.takeWhile_append_of_pos good, List.length_append]
  exact Nat.le_add_right _ _

/-- Characters of a class before one of another class are all of them. -/
theorem eq_takeWhile_of_isPrefix {w more : List Char} (good : ∀ c ∈ w, p c = true)
    (some : more ≠ []) (stops : ∀ c ∈ more.head?, p c = false) (starts : w ++ more <+: cs) :
    w = cs.takeWhile p ∧ more <+: cs.drop w.length := by
  obtain ⟨rest, rfl⟩ := starts
  obtain ⟨c, cs, rfl⟩ := List.exists_cons_of_ne_nil some
  have stop : p c = false := stops c rfl
  rw [List.append_assoc]
  constructor
  · rw [List.takeWhile_append_of_pos good, List.cons_append,
      List.takeWhile_cons_of_neg (by simp [stop]), List.append_nil]
  · rw [List.drop_left]
    exact List.prefix_append _ _

theorem forall_mem_takeWhile (p : Char → Bool) (cs : List Char) : ∀ c ∈ cs.takeWhile p, p c = true :=
  fun _ member => List.mem_takeWhile_imp member

end

/-! ## Fractions and exponents -/

theorem fraction_eq_nil_or_mem (cs : List Char) : fraction cs = [] ∨ fraction cs ∈ fractions := by
  cases cs with
  | nil => exact .inl rfl
  | cons c cs =>
      rw [fraction_cons]
      split
      · rename_i point
        obtain ⟨rfl, some⟩ := point
        refine .inr (mem_fractions.2 ⟨_, mem_row.2 ⟨?_, forall_mem_takeWhile isDigit cs⟩, rfl⟩)
        exact List.isEmpty_eq_false_iff.1 some
      · exact .inl rfl

theorem fraction_point {cs : List Char} (some : cs.takeWhile isDigit ≠ []) :
    fraction ('.' :: cs) = '.' :: cs.takeWhile isDigit := by
  rw [fraction_cons, if_pos ⟨rfl, List.isEmpty_eq_false_iff.2 some⟩]

/-- A fraction at the start of a text is no longer than the one that is found. -/
theorem length_le_fraction {f cs : List Char} (member : f ∈ fractions) (starts : f <+: cs) :
    f.length ≤ (fraction cs).length := by
  obtain ⟨ds, digits, rfl⟩ := mem_fractions.1 member
  obtain ⟨some, digits⟩ := mem_row.1 digits
  obtain ⟨cs, rfl⟩ := List.prefix_iff_exists_eq_append.1 starts
  have part := length_le_takeWhile digits (List.prefix_append ds cs)
  have found : (ds ++ cs).takeWhile isDigit ≠ [] := by
    intro none
    rw [none] at part
    exact some (List.eq_nil_of_length_eq_zero (Nat.le_zero.1 part))
  rw [List.cons_append, fraction_point found]
  exact Nat.succ_le_succ part

/-- A fraction before something that starts with no digit is the one that is found. -/
theorem eq_fraction_of_isPrefix {f more cs : List Char} (member : f ∈ fractions) (some : more ≠ [])
    (stops : ∀ c ∈ more.head?, isDigit c = false) (starts : f ++ more <+: cs) :
    f = fraction cs ∧ more <+: cs.drop f.length := by
  obtain ⟨ds, digits, rfl⟩ := mem_fractions.1 member
  obtain ⟨nonempty, digits⟩ := mem_row.1 digits
  rw [List.cons_append] at starts
  cases cs with
  | nil => exact absurd starts (by simp)
  | cons c cs =>
      obtain ⟨rfl, tail⟩ := List.cons_prefix_cons.1 starts
      obtain ⟨same, later⟩ := eq_takeWhile_of_isPrefix digits some stops tail
      rw [fraction_point (same ▸ nonempty), ← same]
      exact ⟨rfl, later⟩

theorem exponent_eq_nil_or_mem (cs : List Char) : exponent cs = [] ∨ exponent cs ∈ exponents := by
  cases cs with
  | nil => exact .inl rfl
  | cons c cs =>
      unfold exponent
      dsimp only
      split
      · rename_i mark
        split
        · exact .inl rfl
        · rename_i some
          rw [Bool.or_eq_true, decide_eq_true_eq, decide_eq_true_eq] at mark
          refine .inr (mem_exponents.2 ⟨c, _, _, mem_row.2 ⟨?_, ?_⟩, mark, ?_, rfl⟩)
          · simpa using some
          · exact forall_mem_takeWhile isDigit _
          · unfold signPart
            split <;> simp
      · exact .inl rfl

/-- A sign and digits at the start of a text tell the sign that is found. -/
theorem signPart_of_isPrefix {s ds cs : List Char} (sign : s = [] ∨ s = ['+'] ∨ s = ['-'])
    (digits : ds ∈ row isDigit) (starts : s ++ ds <+: cs) : signPart cs = s := by
  obtain ⟨some, digits⟩ := mem_row.1 digits
  obtain ⟨d, ds, rfl⟩ := List.exists_cons_of_ne_nil some
  obtain ⟨rest, rfl⟩ := starts
  rcases sign with rfl | rfl | rfl
  · have digit := digits d List.mem_cons_self
    rw [List.nil_append, List.cons_append, signPart_cons, if_neg]
    rintro (rfl | rfl) <;> cases digit
  · rfl
  · rfl

/-- An exponent at the start of a text is no longer than the one that is found. -/
theorem length_le_exponent {x cs : List Char} (member : x ∈ exponents) (starts : x <+: cs) :
    x.length ≤ (exponent cs).length := by
  obtain ⟨c, s, ds, digits, mark, sign, rfl⟩ := mem_exponents.1 member
  cases cs with
  | nil => exact absurd starts (by simp)
  | cons c' cs =>
      obtain ⟨rfl, tail⟩ := List.cons_prefix_cons.1 starts
      have found := signPart_of_isPrefix sign digits tail
      obtain ⟨some, digits⟩ := mem_row.1 digits
      have later : ds <+: cs.drop s.length := by
        obtain ⟨rest, rfl⟩ := tail
        rw [List.append_assoc, List.drop_left]
        exact List.prefix_append _ _
      have part := length_le_takeWhile digits later
      have nonempty : ((cs.drop s.length).takeWhile isDigit).isEmpty = false := by
        rw [List.isEmpty_eq_false_iff]
        intro none
        rw [none] at part
        exact some (List.eq_nil_of_length_eq_zero (Nat.le_zero.1 part))
      have marked : (decide (c = 'e') || decide (c = 'E')) = true := by simpa using mark
      unfold exponent
      simp only [marked, found, nonempty, if_true, Bool.false_eq_true, if_false, List.length_cons,
        List.length_append]
      omega

/-! ## Numbers -/

/-- The parts of the number at the start of a text: digits, a fraction and an exponent, of which the
last two may be missing. -/
structure NumberParts (text ds f x : List Char) : Prop where
  nonempty : ds ≠ []
  digits : ds = text.takeWhile isDigit
  fraction : f = fraction (text.drop ds.length)
  exponent : x = exponent ((text.drop ds.length).drop f.length)

namespace NumberParts

variable {text ds f x : List Char} (parts : NumberParts text ds f x)

include parts

theorem starts : ds ++ f ++ x <+: text := by
  have whole : ds ++ f <+: text := by
    refine isPrefix_append ?_ ?_
    · rw [parts.digits]
      exact List.takeWhile_prefix isDigit
    · rw [parts.fraction]
      exact isPrefix_fraction _
  refine isPrefix_append whole ?_
  rw [List.length_append, ← List.drop_drop, parts.exponent]
  exact isPrefix_exponent _

theorem fraction_mem : f = [] ∨ f ∈ fractions := by
  rw [parts.fraction]
  exact fraction_eq_nil_or_mem _

theorem exponent_mem : x = [] ∨ x ∈ exponents := by
  rw [parts.exponent]
  exact exponent_eq_nil_or_mem _

/-- An integer at the start of the text is no longer than its digits. -/
theorem int_le {w : List Char} (member : w ∈ Rule.int.language) (start : w <+: text) :
    w.length ≤ (ds ++ f ++ x).length := by
  have part := length_le_takeWhile (mem_row.1 member).2 start
  rw [← parts.digits] at part
  simp only [List.length_append]
  omega

/-- A floating-point number at the start of the text is no longer than the parts together: it has
the same digits, then no longer a fraction, and if it has an exponent the same fraction and no longer
an exponent. -/
theorem float_le {w : List Char} (member : w ∈ Rule.float.language) (start : w <+: text) :
    w.length ≤ (ds ++ f ++ x).length := by
  obtain ⟨ds', digits, f', x', rfl, fraction, exponent, some⟩ := mem_float.1 member
  rw [List.append_assoc] at start
  have more : f' ++ x' ≠ [] := fun none => some (List.append_eq_nil_iff.1 none)
  have stops := notDigit_of_tail fraction exponent
  obtain ⟨same, start⟩ := eq_takeWhile_of_isPrefix (mem_row.1 digits).2 more stops start
  rw [← parts.digits] at same
  subst same
  suffices tail : (f' ++ x').length ≤ (f ++ x).length by
    simp only [List.length_append] at tail ⊢
    omega
  rw [parts.exponent, parts.fraction]
  rcases fraction with rfl | fraction
  · -- an exponent follows the digits, so there is no fraction
    obtain ⟨c, s, e, -, mark, -, rfl⟩ := mem_exponents.1 (exponent.resolve_left fun h => some ⟨rfl, h⟩)
    have exponent := exponent.resolve_left fun h => some ⟨rfl, h⟩
    have none : Lexer.fraction (text.drop ds'.length) = [] := by
      obtain ⟨rest, same⟩ := start
      rw [← same, List.nil_append, List.cons_append, fraction_cons, if_neg]
      rintro ⟨rfl, -⟩
      rcases mark with mark | mark <;> cases mark
    rw [none]
    exact length_le_exponent exponent start
  · rcases exponent with rfl | exponent
    · rw [List.append_nil] at start ⊢
      have part := length_le_fraction fraction start
      rw [List.length_append]
      omega
    · have stops := notDigit_of_tail (.inl rfl) (.inr exponent)
      have nonempty : x' ≠ [] := by
        rintro rfl
        simp [mem_exponents] at exponent
      obtain ⟨same, start⟩ := eq_fraction_of_isPrefix fraction nonempty stops start
      have part := length_le_exponent exponent start
      rw [← same]
      simp only [List.length_append]
      omega

theorem digits_mem : ds ∈ row isDigit := by
  refine mem_row.2 ⟨parts.nonempty, ?_⟩
  rw [parts.digits]
  exact forall_mem_takeWhile isDigit text

theorem isNumber_of_isPrefix {r : Rule} {w : List Char} (member : w ∈ r.language) (start : w <+: text) :
    r = .float ∨ r = .int := by
  have digits := parts.digits_mem
  obtain ⟨d, ds, rfl⟩ := List.exists_cons_of_ne_nil parts.nonempty
  obtain ⟨rest, rfl⟩ := parts.starts
  exact Rule.eq_of_isDigit ((mem_row.1 digits).2 d List.mem_cons_self)
    (Rule.startsWith_of_isPrefix member start)

/-- No rule matches more than the parts together. -/
theorem length_le (r : Rule) (w : List Char) (member : w ∈ r.language) (start : w <+: text) :
    w.length ≤ (ds ++ f ++ x).length := by
  rcases parts.isNumber_of_isPrefix member start with rfl | rfl
  · exact parts.float_le member start
  · exact parts.int_le member start

theorem longest_int (none : f = [] ∧ x = []) : Longest text (ds ++ f ++ x) .int where
  toTakes := Rule.takes_int <| by
    rw [none.1, none.2, List.append_nil, List.append_nil]
    exact parts.digits_mem
  starts := parts.starts
  longest := parts.length_le

theorem longest_float (some : ¬ (f = [] ∧ x = [])) : Longest text (ds ++ f ++ x) .float where
  toTakes := Rule.takes_float <|
    mem_float.2 ⟨ds, parts.digits_mem, f, x, rfl, parts.fraction_mem, parts.exponent_mem, some⟩
  starts := parts.starts
  longest := parts.length_le

end NumberParts

/-! ## Marks -/

theorem longer_le (best : Option Mark) (m : Mark) :
    ∃ b, longer best m = some b ∧ ∀ m', m' = m ∨ best = some m' → m'.text.length ≤ b.text.length := by
  cases best with
  | none => exact ⟨m, rfl, fun m' either => by rw [either.resolve_right nofun]⟩
  | some b =>
      rw [longer]
      split
      · rename_i shorter
        refine ⟨m, rfl, ?_⟩
        rintro m' (rfl | now)
        · exact Nat.le_refl _
        · rw [← Option.some.inj now]
          exact shorter.le
      · rename_i notShorter
        refine ⟨b, rfl, ?_⟩
        rintro m' (rfl | now)
        · exact Nat.le_of_not_lt notShorter
        · rw [Option.some.inj now]

theorem foldl_longer_le (best : Option Mark) (ms : List Mark) :
    ∀ m', m' ∈ ms ∨ best = some m' →
      ∃ m, ms.foldl longer best = some m ∧ m'.text.length ≤ m.text.length := by
  induction ms generalizing best with
  | nil =>
      rintro m' (member | now)
      · exact absurd member List.not_mem_nil
      · exact ⟨m', now, Nat.le_refl _⟩
  | cons first rest ih =>
      rintro m' either
      obtain ⟨b, step, bound⟩ := longer_le best first
      by_cases later : m' ∈ rest
      · exact ih _ m' (.inl later)
      · have now : m' = first ∨ best = some m' := by
          rcases either with member | now
          · exact .inl ((List.mem_cons.1 member).resolve_right later)
          · exact .inr now
        obtain ⟨m, found, above⟩ := ih _ b (.inr step)
        exact ⟨m, found, (bound m' now).trans above⟩

/-- Of the marks at the start of a text, none is longer than the one that is found. -/
theorem mark?_le {cs : List Char} {m : Mark} (starts : m.text.toList <+: cs) :
    ∃ m', mark? cs = some m' ∧ m.text.length ≤ m'.text.length := by
  have listed : m ∈ Mark.all.filter fun m => m.text.toList.isPrefixOf cs :=
    List.mem_filter.2 ⟨Mark.mem_all m, List.isPrefixOf_iff_prefix.2 starts⟩
  exact foldl_longer_le none _ m (.inl listed)

/-! ## Matches -/

/-- What a match at the start of a text has to be: a word, the longest that a rule matches there, is
skipped or stands for a token, as its rule of highest priority says; what that rule cannot give a
value is bad, and so is what starts with no word of a rule. -/
inductive Matched (text word : List Char) : Option Piece → Prop
  | skipped {r : Rule} (longest : Longest text word r) (skipped : r.IsSkipped) :
      Matched text word none
  | token {t : Token} (longest : Longest text word t.rule) (means : t.Means word) :
      Matched text word (some (.token t))
  | unreadable {r : Rule} (longest : Longest text word r) (solid : ¬ r.IsSkipped)
      (noToken : ∀ t : Token, t.rule = r → ¬ t.Means word) :
      Matched text word (some (.bad (String.ofList word)))
  | unmatched (starts : word <+: text) (noRule : ∀ r : Rule, ∀ w ∈ r.language, ¬ w <+: text) :
      Matched text word (some (.bad (String.ofList word)))

variable {c : Char} {cs : List Char}

theorem row_takeWhile {p : Char → Bool} (good : p c = true) :
    c :: cs.takeWhile p ∈ row p := by
  refine mem_row.2 ⟨List.cons_ne_nil _ _, List.forall_mem_cons.2 ⟨good, ?_⟩⟩
  exact forall_mem_takeWhile p cs

theorem blanks_matched (blank : isBlank c = true) :
    Matched (c :: cs) (c :: cs.takeWhile isBlank) none := by
  refine .skipped (r := .blanks) ⟨Rule.takes_blanks (row_takeWhile blank), ?_, ?_⟩ (.inl rfl)
  · exact List.cons_prefix_cons.2 ⟨rfl, List.takeWhile_prefix isBlank⟩
  · intro r w member start
    cases Rule.eq_of_isBlank blank (Rule.startsWith_of_isPrefix member start)
    have part := length_le_takeWhile (mem_row.1 member).2 start
    rwa [List.takeWhile_cons_of_pos blank] at part

theorem comment_matched :
    Matched ('/' :: '/' :: cs) ('/' :: '/' :: cs.takeWhile (· ≠ '\n')) none := by
  have inLine : '\n' ∉ cs.takeWhile (· ≠ '\n') := fun ends =>
    absurd (List.mem_takeWhile_imp ends) (by decide)
  refine .skipped (r := .comment)
    ⟨Rule.takes_comment (mem_comment.2 ⟨_, inLine, rfl⟩), ?_, ?_⟩ (.inr rfl)
  · exact List.cons_prefix_cons.2 ⟨rfl, List.cons_prefix_cons.2 ⟨rfl, List.takeWhile_prefix _⟩⟩
  · intro r w member start
    obtain ⟨rfl, -⟩ | ⟨m, rfl, first⟩ := Rule.eq_of_other rfl rfl rfl (by decide)
      (Rule.startsWith_of_isPrefix member start)
    · obtain ⟨line, inLine, rfl⟩ := mem_comment.1 member
      have start := (List.cons_prefix_cons.1 (List.cons_prefix_cons.1 start).2).2
      have good : ∀ c ∈ line, decide (c ≠ '\n') = true := by
        intro c member
        exact decide_eq_true (ne_of_mem_of_not_mem member inLine)
      exact Nat.succ_le_succ (Nat.succ_le_succ (length_le_takeWhile good start))
    · rw [mem_exactly.1 member]
      exact (length_mark_of_slash m first).trans (Nat.le_add_left 2 _)

theorem scan_of_isDigit (digit : isDigit c = true) : scan c cs = number c cs := by
  obtain ⟨solid, -, -, noSlash⟩ := of_isDigit digit
  simp only [scan, solid, noSlash, digit, decide_false, Bool.false_and, Bool.false_eq_true,
    if_false, if_true]

theorem scan_of_isWordStart (start : isWordStart c = true) : scan c cs = word c cs := by
  obtain ⟨solid, noDigit, -, noSlash⟩ := of_isWordStart start
  simp only [scan, solid, noSlash, noDigit, start, decide_false, Bool.false_and,
    Bool.false_eq_true, if_false, if_true]

theorem scan_other (solid : isBlank c = false) (noComment : ¬ (c = '/' ∧ cs.head? = some '/'))
    (noDigit : isDigit c = false) (noWord : isWordStart c = false) (noQuote : c ≠ '"') :
    scan c cs = ((mark? (c :: cs)).map fun m => ⟨some (.token (.mark m)), m.text.length - 1⟩).getD
      ⟨some (.bad (String.ofList [c])), 0⟩ := by
  have comment : (decide (c = '/') && decide (cs.head? = some '/')) = false := by
    rw [Bool.and_eq_false_iff, decide_eq_false_iff_not, decide_eq_false_iff_not]
    exact not_and_or.1 noComment
  rw [scan, solid, comment, noDigit, noWord]
  simp only [noQuote, Bool.false_eq_true, if_false]
  cases mark? (c :: cs) <;> rfl

theorem number_matched (digit : isDigit c = true) :
    Matched (c :: cs) (c :: cs.take (number c cs).more) (number c cs).piece := by
  have parts : NumberParts (c :: cs) (c :: cs.takeWhile isDigit)
      (fraction (cs.drop (cs.takeWhile isDigit).length))
      (exponent ((cs.drop (cs.takeWhile isDigit).length).drop
        (fraction (cs.drop (cs.takeWhile isDigit).length)).length)) :=
    ⟨List.cons_ne_nil _ _, (List.takeWhile_cons_of_pos digit).symm, rfl, rfl⟩
  unfold number
  dsimp only
  generalize exponent ((cs.drop (cs.takeWhile isDigit).length).drop
    (fraction (cs.drop (cs.takeWhile isDigit).length)).length) = x at parts ⊢
  generalize fraction (cs.drop (cs.takeWhile isDigit).length) = f at parts ⊢
  generalize cs.takeWhile isDigit = ds at parts ⊢
  have tail : cs.take (ds ++ f ++ x).length = ds ++ f ++ x :=
    (List.prefix_iff_eq_take.1 (List.cons_prefix_cons.1 parts.starts).2).symm
  by_cases none : f = [] ∧ x = []
  · have longest := parts.longest_int none
    have digits := (mem_row.1 longest.member).2
    have read (n : Int64) := Reading.int?_of_digits (w := n) (List.cons_ne_nil _ _) digits
    rw [if_pos (by simp [none])]
    split
    · rename_i n found
      rw [tail]
      exact .token longest ((read n).1 found)
    · rename_i missing
      rw [tail]
      refine .unreadable longest (by rintro (⟨⟨⟩⟩ | ⟨⟨⟩⟩)) ?_
      rintro t rule means
      cases t <;> cases rule
      exact absurd (missing.symm.trans ((read _).2 means)) nofun
  · have longest := parts.longest_float none
    have read : Reading.float? (c :: (ds ++ f ++ x)) = Reading.decimal? (c :: (ds ++ f ++ x)) :=
      Reading.float?_of_isDigit digit _
    rw [if_neg (by simpa using none)]
    split
    · rename_i v found
      rw [tail]
      exact .token longest (read.trans found)
    · rename_i missing
      rw [tail]
      refine .unreadable longest (by rintro (⟨⟨⟩⟩ | ⟨⟨⟩⟩)) ?_
      rintro t rule means
      cases t <;> cases rule
      exact absurd (means.symm.trans (read.trans missing)) nofun

theorem word_matched (start : isWordStart c = true) :
    Matched (c :: cs) (c :: cs.take (word c cs).more) (word c cs).piece := by
  have starts : c :: cs.takeWhile isWordPart <+: c :: cs :=
    List.cons_prefix_cons.2 ⟨rfl, List.takeWhile_prefix isWordPart⟩
  have member : c :: cs.takeWhile isWordPart ∈ Rule.ident.language :=
    mem_ident.2 ⟨c, _, start, forall_mem_takeWhile isWordPart cs, rfl⟩
  have longest (r : Rule) (w : List Char) (member : w ∈ r.language) (start' : w <+: c :: cs) :
      w.length ≤ (c :: cs.takeWhile isWordPart).length := by
    have isWord : ∃ d ds, isWordStart d = true ∧ (∀ e ∈ ds, isWordPart e = true) ∧ w = d :: ds := by
      obtain ⟨k, rfl⟩ | rfl := Rule.eq_of_isWordStart start (Rule.startsWith_of_isPrefix member start')
      · rw [mem_exactly.1 member]
        exact Rule.isWord_keyword k
      · exact mem_ident.1 member
    obtain ⟨d, ds, -, parts, rfl⟩ := isWord
    exact Nat.succ_le_succ (length_le_takeWhile parts (List.cons_prefix_cons.1 start').2)
  unfold word
  dsimp only
  split
  · rename_i k found
    have text : k.text.toList = c :: cs.takeWhile isWordPart := by
      have text := List.find?_some found
      rw [decide_eq_true_eq] at text
      rw [text, String.toList_ofList]
    have takes := Rule.takes_keyword k
    rw [text] at takes
    rw [take_takeWhile]
    exact .token (t := .keyword k) ⟨takes, starts, longest⟩ text
  · rename_i missing
    have noKeyword (k : Keyword) : k.text.toList ≠ c :: cs.takeWhile isWordPart := by
      intro text
      have differs := List.find?_eq_none.1 missing k (Keyword.mem_all k)
      exact differs (decide_eq_true (by rw [← text, String.ofList_toList]))
    rw [take_takeWhile]
    exact .token (t := .ident _) ⟨Rule.takes_ident member noKeyword, starts, longest⟩
      String.toList_ofList

/-- A string at the start of a text is closed by the first quote outside of its elements. -/
theorem eq_of_isPrefix_string {w : List Char} (member : w ∈ Rule.string.language)
    (start : w <+: '"' :: cs) : (stringBody cs).2 = true ∧ w = '"' :: ((stringBody cs).1 ++ ['"']) := by
  obtain ⟨body, elements, rfl⟩ := mem_string.1 member
  obtain ⟨rest, rfl⟩ := (List.cons_prefix_cons.1 start).2
  rw [List.append_assoc, List.singleton_append, stringBody_quoted elements]
  exact ⟨rfl, rfl⟩

theorem string_matched :
    Matched ('"' :: cs) ('"' :: cs.take (string cs).more) (string cs).piece := by
  have part := isPrefix_stringBody cs
  unfold string
  dsimp only
  split
  · rename_i closed
    rw [if_pos closed] at part
    have length : ((stringBody cs).1 ++ ['"']).length = (stringBody cs).1.length + 1 :=
      List.length_append
    have tail : cs.take ((stringBody cs).1.length + 1) = (stringBody cs).1 ++ ['"'] := by
      rw [← length]
      exact (List.prefix_iff_eq_take.1 part).symm
    rw [tail]
    have elements := elements_stringBody cs
    refine .token (t := .string _) ⟨Rule.takes_string (mem_string.2 ⟨_, elements, rfl⟩), ?_, ?_⟩
      ⟨_, elements, rfl, ?_⟩
    · exact List.cons_prefix_cons.2 ⟨rfl, part⟩
    · intro r w member start
      cases Rule.eq_of_quote (Rule.startsWith_of_isPrefix member start)
      rw [(eq_of_isPrefix_string member start).2]
    · rw [String.toList_ofList]
      exact (unescapes_iff elements).2 rfl
  · rename_i unclosed
    rw [if_neg unclosed, List.append_nil] at part
    rw [(List.prefix_iff_eq_take.1 part).symm]
    refine .unmatched (List.cons_prefix_cons.2 ⟨rfl, part⟩) fun r w member start => ?_
    cases Rule.eq_of_quote (Rule.startsWith_of_isPrefix member start)
    exact unclosed (eq_of_isPrefix_string member start).1

theorem mark_matched (solid : isBlank c = false) (noComment : ¬ (c = '/' ∧ cs.head? = some '/'))
    (noDigit : isDigit c = false) (noWord : isWordStart c = false) (noQuote : c ≠ '"') :
    Matched (c :: cs) (c :: cs.take (scan c cs).more) (scan c cs).piece := by
  have isMark {r : Rule} {w : List Char} (member : w ∈ r.language) (start : w <+: c :: cs) :
      ∃ m : Mark, w = m.text.toList := by
    obtain ⟨rfl, slash⟩ | ⟨m, rfl, -⟩ := Rule.eq_of_other solid noDigit noWord noQuote
      (Rule.startsWith_of_isPrefix member start)
    · obtain ⟨line, -, rfl⟩ := mem_comment.1 member
      obtain ⟨rfl, rest, rfl⟩ := List.cons_prefix_cons.1 start
      exact absurd ⟨rfl, rfl⟩ noComment
    · exact ⟨m, mem_exactly.1 member⟩
  rw [scan_other solid noComment noDigit noWord noQuote]
  cases found : mark? (c :: cs) with
  | some m =>
      have starts := isPrefix_of_mark? found
      have word : c :: cs.take (m.text.length - 1) = m.text.toList := by
        obtain ⟨d, ds, same, -⟩ := Rule.starts (r := .mark m) rfl
        rw [same] at starts
        obtain ⟨rfl, tail⟩ := List.cons_prefix_cons.1 starts
        rw [← String.length_toList, same, List.length_cons, Nat.add_sub_cancel,
          ← List.prefix_iff_eq_take.1 tail]
      show Matched (c :: cs) (c :: cs.take (m.text.length - 1)) (some (.token (.mark m)))
      rw [word]
      refine .token (t := .mark m) ⟨Rule.takes_mark m, starts, ?_⟩ rfl
      intro r w member start
      obtain ⟨m', rfl⟩ := isMark member start
      obtain ⟨best, same, longer⟩ := mark?_le start
      cases found.symm.trans same
      simpa only [String.length_toList] using longer
  | none =>
      refine .unmatched (List.cons_prefix_cons.2 ⟨rfl, List.take_prefix 0 cs⟩) fun r w member start => ?_
      obtain ⟨m, rfl⟩ := isMark member start
      obtain ⟨best, same, -⟩ := mark?_le start
      exact absurd (found.symm.trans same) nofun

/-- At every position the match is what the rules ask for. -/
theorem scan_matched (c : Char) (cs : List Char) :
    Matched (c :: cs) (c :: cs.take (scan c cs).more) (scan c cs).piece := by
  by_cases blank : isBlank c = true
  · rw [scan, if_pos blank, take_takeWhile]
    exact blanks_matched blank
  by_cases comment : c = '/' ∧ cs.head? = some '/'
  · obtain ⟨rfl, slash⟩ := comment
    obtain ⟨cs, rfl⟩ := List.head?_eq_some_iff.1 slash
    have line : ('/' :: cs).takeWhile (fun c => decide (c ≠ '\n')) =
        '/' :: cs.takeWhile (fun c => decide (c ≠ '\n')) := List.takeWhile_cons_of_pos (by decide)
    have scanned : scan '/' ('/' :: cs) =
        ⟨none, (('/' :: cs).takeWhile fun c => decide (c ≠ '\n')).length⟩ := rfl
    rw [scanned, take_takeWhile, line]
    exact comment_matched
  have solid := Bool.eq_false_iff.2 blank
  by_cases digit : isDigit c = true
  · rw [scan_of_isDigit digit]
    exact number_matched digit
  by_cases start : isWordStart c = true
  · rw [scan_of_isWordStart start]
    exact word_matched start
  by_cases quote : c = '"'
  · subst quote
    exact string_matched
  exact mark_matched solid comment (Bool.eq_false_iff.2 digit) (Bool.eq_false_iff.2 start) quote

/-- A token whose word and rule are determined by the text is the one that is scanned. -/
theorem scan_of_longest {c : Char} {cs word : List Char} {t : Token}
    (longest : Longest (c :: cs) word t.rule) (means : t.Means word) :
    c :: cs.take (scan c cs).more = word ∧ (scan c cs).piece = some (.token t) := by
  have matched := scan_matched c cs
  generalize (scan c cs).piece = piece at matched ⊢
  cases matched with
  | skipped found skipped =>
      obtain ⟨-, rfl⟩ := found.unique longest
      exact absurd skipped t.rule_not_skipped
  | @token t' found means' =>
      obtain ⟨same, rule⟩ := found.unique longest
      rw [same] at means'
      exact ⟨same, by rw [Token.eq_of_means rule means' means]⟩
  | unreadable found solid noToken =>
      obtain ⟨same, rfl⟩ := found.unique longest
      exact absurd (same ▸ means) (noToken t rfl)
  | unmatched starts noRule => exact absurd longest.starts (noRule _ _ longest.member)

end Lexer

end ScriptLang
