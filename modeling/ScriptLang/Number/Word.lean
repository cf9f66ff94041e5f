/-
# ScriptLang.Number.Word -- integers of 64 bits

Integers are signed words of 64 bits; sums, differences, products, powers and
factorials are taken modulo 2 ^ 64.  Core's operators on `Int64` are the rest of
the arithmetic: `/` cuts toward zero, `%` has the sign of the dividend, and a
shift takes its amount modulo 64.
-/

namespace ScriptLang.Word

set_option autoImplicit false

/-- `b` to the power `n` modulo 2 ^ 64, by repeated squaring. -/
def pow (b : Int64) (n : Nat) : Int64 :=
  if n = 0 then 1
  else
    let half := pow (b * b) (n / 2)
    if n % 2 = 1 then b * half else half
termination_by n
decreasing_by omega

/-- The product of 1 up to `n` modulo 2 ^ 64. -/
def product : Nat → Int64
  | 0 => 1
  | k + 1 => product k * Int64.ofNat (k + 1)

/-- The factorial modulo 2 ^ 64, and 1 below 1.  From 66 on the product has the
factor 2 ^ 64, so it is zero. -/
def factorial (n : Int64) : Int64 :=
  if 66 ≤ n then 0 else product n.toInt.toNat

/-- The exponents whose power is taken among the words. -/
def isCount (n : Int64) : Bool := 0 ≤ n && n ≤ 4294967295

/-- Integer power.  An exponent that is negative or too large goes through
floating point, and the result is cut to the nearest word. -/
def power (b e : Int64) : Int64 :=
  if isCount e then pow b e.toInt.toNat else (Float.pow b.toFloat e.toFloat).toInt64

/-- The decimal text. -/
def text (n : Int64) : String :=
  if n < 0 then "-" ++ Nat.repr n.toInt.natAbs else Nat.repr n.toInt.natAbs

/-- The distance from zero, which may be 2 ^ 63. -/
def magnitude (n : Int64) : Nat := n.toInt.natAbs

end ScriptLang.Word
