/-
# ScriptLang.Proofs.Wrapping -- integers are computed exactly, and then reduced

The operators on words are compared with those on the integers that the words stand
for.  A result that is no word is brought back among them by a multiple of 2 ^ 64
(`Int.bmod`).  Of a power every step is reduced, which comes to the same as reducing
the power itself (`Word.toInt_pow`).  A shift takes its amount modulo 64, from zero to
63 also where the amount is negative, so that to the left it is a product with a power
of two, and to the right a quotient cut downwards.

A quotient cut toward zero is a word, with one exception, and a remainder always is;
so they fail only for the divisor zero (`Operation.onInts_exact`).

A factorial is not multiplied out from 66 on, where it has the factor 2 ^ 64 and is
reduced to zero.  Of the factors from 1 to 65 one factor 2 is missing for that
(`Word.two_pow_dvd_factorial_iff`), so no smaller factorial is zero, and leaving the
product out there changes nothing (`Word.factorial_exact`).
-/
import Mathlib.Data.Nat.Multiplicity
import Mathlib.Data.Rat.Floor
import ScriptLang.Bound.Operator
import ScriptLang.Run.Operation

namespace ScriptLang

set_option autoImplicit false

namespace Word

theorem bmod_pow_bmod (x : Int) (m n : Nat) : (x.bmod m ^ n).bmod m = (x ^ n).bmod m := by
  induction n with
  | zero => rw [pow_zero, pow_zero]
  | succ n ih =>
      rw [pow_succ, pow_succ, Int.mul_bmod_bmod, ← Int.bmod_mul_bmod, ih, Int.bmod_mul_bmod]

/-- A power of words stands for the power of the integers. -/
theorem toInt_pow (b : Int64) (n : Nat) : (pow b n).toInt = (b.toInt ^ n).bmod (2 ^ 64) := by
  induction n using Nat.strong_induction_on generalizing b with
  | _ n ih =>
      rw [pow]
      by_cases zero : n = 0
      · rw [if_pos zero, zero, pow_zero]
        rfl
      · have halved : (pow (b * b) (n / 2)).toInt = (b.toInt ^ (2 * (n / 2))).bmod (2 ^ 64) := by
          rw [ih (n / 2) (by omega), Int64.toInt_mul, bmod_pow_bmod, ← pow_two, ← pow_mul]
        rw [if_neg zero]
        dsimp only
        split
        · rename_i odd
          have split : n = 2 * (n / 2) + 1 := by omega
          rw [Int64.toInt_mul, halved, Int.mul_bmod_bmod, ← pow_succ', ← split]
        · rename_i even
          have split : n = 2 * (n / 2) := by omega
          rw [halved, ← split]

/-- An exponent from zero to 2 ^ 32 is no matter of floating point. -/
theorem power_of_le {e : Int64} (low : 0 ≤ e.toInt) (high : e.toInt < 2 ^ 32) (b : Int64) :
    power b e = pow b e.toInt.toNat := by
  have least : (0 : Int64) ≤ e := Int64.le_iff_toInt_le.2 low
  have greatest : e ≤ 4294967295 := Int64.le_iff_toInt_le.2 (Int.le_of_lt_add_one high)
  have count : isCount e = true := by
    rw [isCount, decide_eq_true least, decide_eq_true greatest]
    rfl
  rw [power, if_pos count]

/-- The amount of a shift is taken modulo 64, and is not negative. -/
theorem toNat_amount (r : Int64) : (r.toBitVec.smod 64).toNat = (r.toInt % 64).toNat := by
  have amount : (r.toBitVec.smod 64).toInt = r.toInt % 64 := by
    rw [BitVec.toInt_smod]
    exact Int.fmod_eq_emod_of_nonneg _ (by decide)
  have low := Int.emod_nonneg r.toInt (show (64 : Int) ≠ 0 by decide)
  have word := BitVec.toInt_eq_toNat_bmod (r.toBitVec.smod 64)
  have small := (r.toBitVec.smod 64).isLt
  rw [amount, Int.bmod_def] at word
  omega

theorem toInt_shiftLeft (l r : Int64) :
    (l <<< r).toInt = (l.toInt * 2 ^ (r.toInt % 64).toNat).bmod (2 ^ 64) := by
  have word : l.toInt = (l.toBitVec.toNat : Int).bmod (2 ^ 64) := BitVec.toInt_eq_toNat_bmod _
  rw [← Int64.toInt_toBitVec, Int64.toBitVec_shiftLeft, BitVec.shiftLeft_eq', toNat_amount,
    BitVec.toInt_shiftLeft, word, Int.bmod_mul_bmod, Nat.shiftLeft_eq, Nat.cast_mul, Nat.cast_pow]
  rfl

theorem toInt_shiftRight (l r : Int64) :
    (l >>> r).toInt = ⌊(l.toInt : ℚ) / 2 ^ (r.toInt % 64).toNat⌋ := by
  have floor := Rat.floor_intCast_div_natCast l.toInt (2 ^ (r.toInt % 64).toNat)
  rw [Nat.cast_pow, Nat.cast_ofNat] at floor
  rw [floor, ← Int64.toInt_toBitVec, Int64.toBitVec_shiftRight, BitVec.toInt_sshiftRight',
    toNat_amount, Int.shiftRight_eq_div_pow]
  rfl

/-- A quotient and a remainder make up the dividend. -/
theorem toInt_div_mul_add_mod (l r : Int64) :
    l.toInt = ((l / r).toInt * r.toInt + (l % r).toInt).bmod (2 ^ 64) := by
  calc l.toInt = l.toInt.bmod (2 ^ 64) := l.toInt_bmod.symm
    _ = (l.toInt.tdiv r.toInt * r.toInt + l.toInt.tmod r.toInt).bmod (2 ^ 64) := by
        rw [Int.tdiv_mul_add_tmod]
    _ = ((l / r).toInt * r.toInt + (l % r).toInt).bmod (2 ^ 64) := by
        rw [Int64.toInt_div, Int64.toInt_mod, Int.add_bmod, ← Int.bmod_mul_bmod, ← Int.add_bmod]

/-- The product of the words from 1 on stands for the factorial. -/
theorem toInt_product (k : Nat) : (product k).toInt = (k.factorial : Int).bmod (2 ^ 64) := by
  induction k with
  | zero => rfl
  | succ k ih =>
      have word : (Int64.ofNat (k + 1)).toInt = ((k + 1 : Nat) : Int).bmod (2 ^ 64) :=
        Int64.toInt_ofNat'
      rw [product, Int64.toInt_mul, ih, word, Int.bmod_mul_bmod, Int.mul_bmod_bmod, ← Nat.cast_mul,
        Nat.mul_comm, Nat.factorial_succ]

/-- The factors from 1 to 65 have 32 + 16 + 8 + 4 + 2 + 1 factors 2 between them, and 66 has the
next. -/
theorem two_pow_dvd_factorial_iff (k : Nat) : 2 ^ 64 ∣ k.factorial ↔ 66 ≤ k := by
  have twos (n : Nat) (small : n < 2 ^ 7) :
      2 ^ 64 ∣ n.factorial ↔ 64 ≤ ∑ i ∈ Finset.Ico 1 7, n / 2 ^ i :=
    Nat.prime_two.pow_dvd_factorial_iff (Nat.log_lt_of_lt_pow' (by decide) small)
  constructor
  · intro divides
    by_contra below
    have most : 2 ^ 64 ∣ Nat.factorial 65 :=
      divides.trans (Nat.factorial_dvd_factorial (by omega))
    exact absurd ((twos 65 (by decide)).1 most) (by decide)
  · intro above
    exact ((twos 66 (by decide)).2 (by decide)).trans (Nat.factorial_dvd_factorial above)

theorem product_eq_zero_iff (k : Nat) : product k = 0 ↔ 66 ≤ k := by
  rw [← Int64.toInt_inj, toInt_product, ← two_pow_dvd_factorial_iff]
  exact Int.dvd_iff_bmod_eq_zero.symm.trans Int.natCast_dvd_natCast

/-- Where the product is not multiplied out, it is what is given instead. -/
theorem factorial_eq_product (n : Int64) : factorial n = product n.toInt.toNat := by
  rw [factorial]
  split
  · rename_i large
    have above : 66 ≤ n.toInt := Int64.le_iff_toInt_le.1 large
    exact ((product_eq_zero_iff _).2 (by omega)).symm
  · rfl

/-- The factorial of a word is the product of the numbers from 1 up to it, reduced; without such a
number it is 1.  The products with the factor 2 ^ 64 are those up to 66 or further, and the others
are not zero when they are reduced. -/
theorem factorial_exact (n : Int64) :
    factorial n = product n.toInt.toNat ∧
    (factorial n).toInt = (n.toInt.toNat.factorial : Int).bmod (2 ^ 64) ∧
    (∀ k : Nat, 2 ^ 64 ∣ k.factorial ↔ 66 ≤ k) ∧
    ∀ k : Nat, product k = 0 ↔ 66 ≤ k := by
  refine ⟨factorial_eq_product n, ?_, two_pow_dvd_factorial_iff, product_eq_zero_iff⟩
  rw [factorial_eq_product, toInt_product]

end Word

namespace Operation

/-- Whether an operator gives the word that stands for an integer. -/
def Gives (result : Except Fault Value) (z : Int) : Prop :=
  ∃ w : Int64, result = .ok (.int w) ∧ w.toInt = z

theorem onInts_div {r : Int64} (nonzero : r ≠ 0) (l : Int64) :
    onInts .div l r = .ok (.int (l / r)) ∧ onInts .mod l r = .ok (.int (l % r)) :=
  ⟨if_neg nonzero, if_neg nonzero⟩

/-- The one quotient that is no word comes back to the dividend. -/
theorem onInts_div_minValue :
    onInts .div .minValue (-1) = .ok (.int .minValue) ∧
      onInts .mod .minValue (-1) = .ok (.int 0) := by
  have quotient : (.minValue : Int64) / -1 = .minValue := by decide
  have rest : (.minValue : Int64) % -1 = 0 := by decide
  have words := onInts_div (show (-1 : Int64) ≠ 0 by decide) .minValue
  rwa [quotient, rest] at words

/-- An operator that takes two integers fails exactly if it divides by zero. -/
theorem onInts_fails_iff {op : BinaryOp} (takes : (Bound.BinaryRule.find? op .int .int).isSome)
    (l r : Int64) :
    (∃ f, onInts op l r = .error f) ↔ (op = .div ∨ op = .mod) ∧ r = 0 := by
  cases op with
  | div => by_cases zero : r = 0 <;> simp [onInts, zero]
  | mod => by_cases zero : r = 0 <;> simp [onInts, zero]
  | and => cases takes
  | or => cases takes
  | _ => simp [onInts]

/-- On integers the operators are exact modulo 2 ^ 64.  A power is, where its exponent is from zero
to 2 ^ 32.  Division is cut toward zero and leaves a remainder with the sign of the dividend.  Of
the operators that take two integers it alone can fail, and that is for the divisor zero. -/
theorem onInts_exact (l r : Int64) :
    Gives (onInts .add l r) ((l.toInt + r.toInt).bmod (2 ^ 64)) ∧
    Gives (onInts .sub l r) ((l.toInt - r.toInt).bmod (2 ^ 64)) ∧
    Gives (onInts .mul l r) ((l.toInt * r.toInt).bmod (2 ^ 64)) ∧
    (0 ≤ r.toInt → r.toInt < 2 ^ 32 →
      Gives (onInts .pow l r) ((l.toInt ^ r.toInt.toNat).bmod (2 ^ 64))) ∧
    (∃ k : Nat, k < 64 ∧ (k : Int) = r.toInt % 64 ∧
      Gives (onInts .shl l r) ((l.toInt * 2 ^ k).bmod (2 ^ 64)) ∧
      Gives (onInts .shr l r) ⌊(l.toInt : ℚ) / 2 ^ k⌋) ∧
    (r ≠ 0 → ∃ q m : Int, Gives (onInts .div l r) q ∧ Gives (onInts .mod l r) m ∧
      q = (l.toInt.tdiv r.toInt).bmod (2 ^ 64) ∧ m = l.toInt.tmod r.toInt ∧
      (m ≠ 0 → m.sign = l.toInt.sign) ∧ l.toInt = (q * r.toInt + m).bmod (2 ^ 64)) ∧
    (onInts .div .minValue (-1) = .ok (.int .minValue) ∧
      onInts .mod .minValue (-1) = .ok (.int 0)) ∧
    ∀ op, (Bound.BinaryRule.find? op .int .int).isSome →
      ((∃ f, onInts op l r = .error f) ↔ (op = .div ∨ op = .mod) ∧ r = 0) := by
  refine ⟨⟨l + r, rfl, Int64.toInt_add l r⟩, ⟨l - r, rfl, Int64.toInt_sub l r⟩,
    ⟨l * r, rfl, Int64.toInt_mul l r⟩, fun low high => ?_, ?_, fun nonzero => ?_,
    onInts_div_minValue, fun op takes => onInts_fails_iff takes l r⟩
  · exact ⟨Word.power l r, rfl, by rw [Word.power_of_le low high, Word.toInt_pow]⟩
  · have low : 0 ≤ r.toInt % 64 := Int.emod_nonneg _ (by decide)
    have high : r.toInt % 64 < 64 := Int.emod_lt_of_pos _ (by decide)
    exact ⟨(r.toInt % 64).toNat, by omega, Int.toNat_of_nonneg low,
      ⟨l <<< r, rfl, Word.toInt_shiftLeft l r⟩, ⟨l >>> r, rfl, Word.toInt_shiftRight l r⟩⟩
  · obtain ⟨div, mod⟩ := onInts_div nonzero l
    refine ⟨(l / r).toInt, (l % r).toInt, ⟨l / r, div, rfl⟩, ⟨l % r, mod, rfl⟩, Int64.toInt_div l r,
      Int64.toInt_mod l r, fun rest => ?_, Word.toInt_div_mul_add_mod l r⟩
    rw [Int64.toInt_mod] at rest ⊢
    rw [Int.sign_tmod, if_neg fun divides => rest (Int.tmod_eq_zero_of_dvd divides)]

/-- The least word to the third power, and divided by three. -/
theorem minValue_by_three :
    (0 ≤ (3 : Int64).toInt ∧ (3 : Int64).toInt < 2 ^ 32 ∧ (3 : Int64) ≠ 0) ∧
    Gives (onInts .pow .minValue 3) 0 ∧
    Gives (onInts .div .minValue 3) (-3074457345618258602) ∧
    Gives (onInts .mod .minValue 3) (-2) := by
  obtain ⟨-, -, -, pow, -, div, -, -⟩ := onInts_exact .minValue 3
  obtain ⟨q, m, quotient, rest, rfl, rfl, -⟩ := div (by decide)
  have cubed : (Int64.minValue.toInt ^ (3 : Int64).toInt.toNat).bmod (2 ^ 64) = 0 := by decide
  have cut : (Int64.minValue.toInt.tdiv (3 : Int64).toInt).bmod (2 ^ 64) = -3074457345618258602 := by
    decide
  have left : Int64.minValue.toInt.tmod (3 : Int64).toInt = -2 := by decide
  have power := pow (by decide) (by decide)
  rw [cubed] at power
  rw [cut] at quotient
  rw [left] at rest
  exact ⟨⟨by decide, by decide, by decide⟩, power, quotient, rest⟩

end Operation

end ScriptLang
