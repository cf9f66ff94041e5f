/-
# ScriptLang.Number.Decimal -- the fewest digits that read back

Between a double and its neighbours lies an interval of numbers that round to
it; the ends belong to it if the mantissa is even.  For one digit, two digits
and so on the two multiples of the digit's unit around the value are tested: the
first unit with a multiple in the interval gives the digits.  If both multiples
lie in the interval the nearer one is taken; of two equally near ones a rule for
ties decides.
-/
import ScriptLang.Number.Binary

namespace ScriptLang

set_option autoImplicit false

/-- The number `digits * 10 ^ exponent`. -/
structure Decimal where
  digits : Nat
  exponent : Int
deriving DecidableEq, Inhabited

namespace Decimal

/-- Move zeros from the end of the digits into the exponent; `fuel` bounds their number. -/
def trimZeros : Nat → Decimal → Decimal
  | 0, d => d
  | fuel + 1, d =>
      if d.digits ≠ 0 ∧ d.digits % 10 = 0 then trimZeros fuel ⟨d.digits / 10, d.exponent + 1⟩ else d

/-- The value and its interval over one denominator: `low / den` to `high / den`. -/
structure Interval where
  value : Nat
  low : Nat
  high : Nat
  den : Nat
  closed : Bool

/-- The numbers that round to `mantissa * 2 ^ exponent`, in quarters of the unit. -/
def interval (p : Binary.Parts) : Interval :=
  let value := 4 * p.mantissa
  let low := value - (if p.narrowBelow then 1 else 2)
  let high := value + 2
  let power := p.exponent - 2
  let closed := p.mantissa % 2 = 0
  if power ≥ 0 then
    let factor := Nat.pow 2 power.toNat
    ⟨value * factor, low * factor, high * factor, 1, closed⟩
  else ⟨value, low, high, Nat.pow 2 (-power).toNat, closed⟩

/-- Which of two equally near numbers is taken. -/
inductive Tie where
  | larger
  | even
deriving DecidableEq, Inhabited

/-- The nearer of the whole numbers around `below + rest / den`. -/
def nearer (tie : Tie) (below rest den : Nat) : Nat :=
  if 2 * rest < den then below
  else if den < 2 * rest then below + 1
  else
    match tie with
    | .larger => below + 1
    | .even => if below % 2 = 0 then below else below + 1

/-- The multiple of `10 ^ unit` in the interval that is nearest to the value. -/
def onGrid? (tie : Tie) (i : Interval) (unit : Int) : Option Nat :=
  let up := if unit ≥ 0 then 1 else Nat.pow 10 (-unit).toNat
  let den := if unit ≥ 0 then i.den * Nat.pow 10 unit.toNat else i.den
  let value := i.value * up
  let below := value / den
  let rest := value % den
  let lowIn := if i.closed then i.low * up ≤ below * den else i.low * up < below * den
  let highIn :=
    if i.closed then (below + 1) * den ≤ i.high * up else (below + 1) * den < i.high * up
  if lowIn then
    if highIn then some (nearer tie below rest den) else some below
  else if highIn then some (below + 1)
  else none

/-- An upper bound of the places that `value / den` has before the point. -/
def placesBound (i : Interval) : Int :=
  let log : Int := (Nat.log2 i.value : Int) + 1 - (Nat.log2 i.den : Int)
  log * 30103 / 100000 + 1

/-- Try units from `unit` downwards; `fuel` bounds the number of digits. -/
def firstGrid (tie : Tie) (i : Interval) : Nat → Int → Decimal
  | 0, unit => ⟨i.value / i.den, unit⟩
  | fuel + 1, unit =>
      match onGrid? tie i unit with
      | some digits => trimZeros 20 ⟨digits, unit⟩
      | none => firstGrid tie i fuel (unit - 1)

/-- The shortest decimal that reads back as the double with these parts. -/
def shortest (tie : Tie) (p : Binary.Parts) : Decimal :=
  if p.mantissa = 0 then ⟨0, 0⟩
  else
    let i := interval p
    firstGrid tie i 30 (placesBound i)

end Decimal

end ScriptLang
