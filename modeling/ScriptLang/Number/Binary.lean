/-
# ScriptLang.Number.Binary -- floating-point numbers as exact fractions

A finite double is `mantissa * 2 ^ exponent`, and its 64 bits hold the two
numbers side by side, so that the bits of non-negative doubles are ordered as
their values are.  `ofRatio` is the nearest double of a fraction, a tie going to
the even mantissa; past the largest double it is infinite.
-/

namespace ScriptLang.Binary

set_option autoImplicit false

/-- The parts of a double: sign, mantissa, binary exponent, and whether the gap
below the value is half the gap above it. -/
structure Parts where
  negative : Bool
  mantissa : Nat
  exponent : Int
  narrowBelow : Bool

/-- What 64 bits stand for. -/
inductive Meaning where
  | finite (parts : Parts)
  | infinite (negative : Bool)
  | notANumber

/-- Read the three fields of a double. -/
def meaning (bits : UInt64) : Meaning :=
  let n := bits.toNat
  let negative := n / Nat.pow 2 63 = 1
  let field : Nat := n / Nat.pow 2 52 % 2048
  let fraction : Nat := n % Nat.pow 2 52
  if field = 2047 then
    if fraction = 0 then .infinite negative else .notANumber
  else if field = 0 then
    .finite ⟨negative, fraction, -1074, false⟩
  else
    .finite ⟨negative, fraction + Nat.pow 2 52, (field : Int) - 1075, fraction = 0 && field > 1⟩

/-- Bits of infinity. -/
def infinityBits : Nat := 2047 * Nat.pow 2 52

/-- The positive infinite number. -/
def infinity : Float := Float.ofBits (UInt64.ofNat infinityBits)

/-- `num / den` scaled by a power of two, as a fraction again. -/
def scale (num den : Nat) (power : Int) : Nat × Nat :=
  if power ≥ 0 then (num * Nat.pow 2 power.toNat, den) else (num, den * Nat.pow 2 (-power).toNat)

/-- The nearest whole number of a fraction; a tie goes to the even one. -/
def roundEven (num den : Nat) : Nat :=
  let q := num / den
  let r := num % den
  if 2 * r < den then q
  else if den < 2 * r then q + 1
  else if q % 2 = 0 then q else q + 1

/-- The exponent that gives `num / den` a mantissa of 53 bits, or the least exponent. -/
def exponentFor (num den : Nat) : Int :=
  let low : Int := (Nat.log2 num : Int) - (Nat.log2 den : Int) - 53
  let scaled := scale num den (-low)
  let e := if scaled.1 / scaled.2 < Nat.pow 2 53 then low else low + 1
  max e (-1074)

/-- Bits of the non-negative double nearest to `num / den`. -/
def bitsOfRatio (num den : Nat) : Nat :=
  if num = 0 then 0
  else
    let e := exponentFor num den
    let scaled := scale num den (-e)
    let bits := (e + 1074).toNat * Nat.pow 2 52 + roundEven scaled.1 scaled.2
    min bits infinityBits

/-- The non-negative double nearest to `num / den`. -/
def ofRatio (num den : Nat) : Float := Float.ofBits (UInt64.ofNat (bitsOfRatio num den))

/-- The double nearest to `digits * 10 ^ exponent`. -/
def ofDecimal (digits : Nat) (exponent : Int) : Float :=
  if exponent ≥ 0 then ofRatio (digits * Nat.pow 10 exponent.toNat) 1
  else ofRatio digits (Nat.pow 10 (-exponent).toNat)

end ScriptLang.Binary
