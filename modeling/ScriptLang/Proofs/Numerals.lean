/-
# ScriptLang.Proofs.Numerals -- integers read from text

An integer is read from an optional sign and one or more digits (`Numeral`).  The
digits may stand for any number, however many zeros are before it; what is read
is a word of 64 bits, so a numeral is refused exactly if no word has its value
(`Reading.int?_eq_some_iff`).  The text of a word is a numeral of that word, also
for the least one, whose distance from zero is no word itself
(`Reading.int?_text`).
-/
import Mathlib.Data.List.Basic
import ScriptLang.Number.Reading
import ScriptLang.Number.Word

namespace ScriptLang

set_option autoImplicit false

/-- An optional sign and one or more digits, and the number that they stand for. -/
inductive Numeral : List Char → Int → Prop
  | unsigned {ds : List Char} (some : ds ≠ []) (digits : ∀ d ∈ ds, d.isDigit = true) :
      Numeral ds (Nat.ofDigitChars 10 ds 0)
  | plus {ds : List Char} (some : ds ≠ []) (digits : ∀ d ∈ ds, d.isDigit = true) :
      Numeral ('+' :: ds) (Nat.ofDigitChars 10 ds 0)
  | minus {ds : List Char} (some : ds ≠ []) (digits : ∀ d ∈ ds, d.isDigit = true) :
      Numeral ('-' :: ds) (-(Nat.ofDigitChars 10 ds 0 : Int))

namespace Reading

theorem value_eq (ds : List Char) : value ds = Nat.ofDigitChars 10 ds 0 :=
  Nat.ofDigitChars_eq_foldl.symm

theorem digits?_eq_some_iff {ds : List Char} {n : Nat} :
    digits? ds = some n ↔
      ds ≠ [] ∧ (∀ d ∈ ds, d.isDigit = true) ∧ Nat.ofDigitChars 10 ds 0 = n := by
  have test : (ds.isEmpty || !ds.all isDigit) = true ↔
      ¬ (ds ≠ [] ∧ ∀ d ∈ ds, d.isDigit = true) := by
    have same : ds.all isDigit = true ↔ ∀ d ∈ ds, d.isDigit = true := List.all_eq_true
    rw [Bool.or_eq_true, List.isEmpty_iff, Bool.not_eq_true', ← Bool.not_eq_true, same]
    tauto
  unfold digits?
  rw [value_eq, ← and_assoc]
  by_cases good : ds ≠ [] ∧ ∀ d ∈ ds, d.isDigit = true
  · rw [if_neg (mt test.1 (not_not.2 good)), Option.some_inj, iff_true_intro good, true_and]
  · rw [if_pos (test.2 good)]
    exact iff_of_false nofun fun both => good both.1

/-- A sign and a magnitude are read as the word that has their value. -/
theorem word?_eq_some_iff {negative : Bool} {n : Nat} {w : Int64} :
    word? negative n = some w ↔ w.toInt = if negative then -(n : Int) else n := by
  have low := w.le_toInt
  have high := w.toInt_lt
  unfold word?
  cases negative with
  | true =>
      simp only [if_true]
      split
      · rename_i fits
        have value : (Int64.ofInt (-(n : Int))).toInt = -(n : Int) :=
          Int64.toInt_ofInt_of_le (by simp at fits; omega) (by omega)
        rw [Option.some_inj, ← Int64.toInt_inj, value, eq_comm]
      · rename_i tooFar
        simp at tooFar
        simp only [reduceCtorEq, false_iff]
        omega
  | false =>
      simp only [Bool.false_eq_true, if_false]
      split
      · rename_i fits
        have value : (Int64.ofInt (n : Int)).toInt = (n : Int) :=
          Int64.toInt_ofInt_of_le (by omega) (by simp at fits; omega)
        rw [Option.some_inj, ← Int64.toInt_inj, value, eq_comm]
      · rename_i tooFar
        simp at tooFar
        simp only [reduceCtorEq, false_iff]
        omega

theorem sign_of_isDigit {d : Char} (digit : d.isDigit = true) (ds : List Char) :
    sign (d :: ds) = (false, d :: ds) := by
  unfold sign
  split
  · rename_i minus
    cases minus
    cases digit
  · rename_i plus
    cases plus
    cases digit
  · rfl

theorem sign_cases (cs : List Char) :
    (∃ ds, cs = '-' :: ds ∧ sign cs = (true, ds)) ∨
      (∃ ds, cs = '+' :: ds ∧ sign cs = (false, ds)) ∨ sign cs = (false, cs) := by
  unfold sign
  split
  · exact .inl ⟨_, rfl, rfl⟩
  · exact .inr (.inl ⟨_, rfl, rfl⟩)
  · exact .inr (.inr rfl)

/-- Digits without a sign are read as the word that has their value. -/
theorem int?_of_digits {ds : List Char} (some : ds ≠ []) (digits : ∀ d ∈ ds, d.isDigit = true)
    {w : Int64} : int? ds = .some w ↔ w.toInt = (Nat.ofDigitChars 10 ds 0 : Int) := by
  have unsigned : sign ds = (false, ds) := by
    obtain ⟨d, rest, rfl⟩ := List.exists_cons_of_ne_nil some
    exact sign_of_isDigit (digits d List.mem_cons_self) rest
  have number : digits? ds = .some (Nat.ofDigitChars 10 ds 0) :=
    digits?_eq_some_iff.2 ⟨some, digits, rfl⟩
  rw [int?, unsigned]
  simp only [number, Option.bind_some, word?_eq_some_iff, Bool.false_eq_true, if_false]

/-- An integer is read from the numerals that have its value, and from nothing else. -/
theorem int?_eq_some_iff {cs : List Char} {w : Int64} : int? cs = some w ↔ Numeral cs w.toInt := by
  constructor
  · intro read
    obtain ⟨n, number, word⟩ := Option.bind_eq_some_iff.1 read
    obtain ⟨nonempty, digits, rfl⟩ := digits?_eq_some_iff.1 number
    rw [word?_eq_some_iff] at word
    rw [word]
    obtain ⟨ds, rfl, signed⟩ | ⟨ds, rfl, signed⟩ | signed := sign_cases cs
    · rw [signed] at nonempty digits ⊢
      exact .minus nonempty digits
    · rw [signed] at nonempty digits ⊢
      exact .plus nonempty digits
    · rw [signed] at nonempty digits ⊢
      exact .unsigned nonempty digits
  · intro numeral
    generalize value : w.toInt = v at numeral
    cases numeral with
    | unsigned nonempty digits => exact (int?_of_digits nonempty digits).2 value
    | plus nonempty digits =>
        have number := digits?_eq_some_iff.2 ⟨nonempty, digits, rfl⟩
        exact Option.bind_eq_some_iff.2 ⟨_, number, word?_eq_some_iff.2 value⟩
    | minus nonempty digits =>
        have number := digits?_eq_some_iff.2 ⟨nonempty, digits, rfl⟩
        exact Option.bind_eq_some_iff.2 ⟨_, number, word?_eq_some_iff.2 value⟩

/-- The text of a word is its distance from zero, after a minus if it is negative. -/
theorem toList_text (w : Int64) :
    (Word.text w).toList =
      (if w.toInt < 0 then ['-'] else []) ++ Nat.toDigits 10 w.toInt.natAbs := by
  have negative : w < 0 ↔ w.toInt < 0 := Int64.lt_iff_toInt_lt
  unfold Word.text
  by_cases below : w.toInt < 0
  · rw [if_pos (negative.2 below), if_pos below, String.toList_append, Nat.toList_repr]
    rfl
  · rw [if_neg (mt negative.1 below), if_neg below, Nat.toList_repr, List.nil_append]

/-- The text of a word is a numeral of that word. -/
theorem numeral_text (w : Int64) : Numeral (Word.text w).toList w.toInt := by
  have digits : ∀ d ∈ Nat.toDigits 10 w.toInt.natAbs, d.isDigit = true := fun d member =>
    Nat.isDigit_of_mem_toDigits (by decide) (by decide) member
  have value : Nat.ofDigitChars 10 (Nat.toDigits 10 w.toInt.natAbs) 0 = w.toInt.natAbs :=
    Nat.ofDigitChars_ten_toDigits
  rw [toList_text]
  split
  · rename_i below
    have number := Numeral.minus Nat.toDigits_ne_nil digits
    have same : -((w.toInt.natAbs : Nat) : Int) = w.toInt := by omega
    rwa [value, same] at number
  · rename_i above
    have number := Numeral.unsigned Nat.toDigits_ne_nil digits
    have same : ((w.toInt.natAbs : Nat) : Int) = w.toInt := by omega
    rwa [value, same] at number

theorem int?_text (w : Int64) : int? (Word.text w).toList = some w :=
  int?_eq_some_iff.2 (numeral_text w)

end Reading

end ScriptLang
