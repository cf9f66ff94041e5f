/-
# ScriptLang.Number.Layout -- how decimals are written

A layout decides which magnitudes are written positionally, whether a whole
number keeps a point, and how an exponent is written.  Three layouts are in use:
`shown` for values, `dumped` for token listings and `document` for JSON.
-/
import ScriptLang.Number.Decimal

namespace ScriptLang

set_option autoImplicit false

/-- The decisions of one way to write floating-point numbers. -/
structure NumberLayout where
  /-- The powers of ten of the leading digit that are written positionally. -/
  positional : Int → Bool
  /-- Whether a whole number is written with one zero after a point. -/
  point : Bool
  /-- Whether a positive exponent has a plus sign. -/
  plus : Bool
  /-- Which of two equally short and near decimals is written. -/
  tie : Decimal.Tie

namespace NumberLayout

/-- Values: always positional, and a whole number has no point. -/
def shown : NumberLayout := ⟨fun _ => true, false, false, .larger⟩

/-- Token listings: positional from 10 ^ -4 up to 10 ^ 16. -/
def dumped : NumberLayout := ⟨fun e => -4 ≤ e && e ≤ 15, true, false, .larger⟩

/-- JSON documents: positional from 10 ^ -5 up to 10 ^ 16. -/
def document : NumberLayout := ⟨fun e => -5 ≤ e && e ≤ 15, true, true, .even⟩

/-- Digits with a point after the first `places`, which may lie outside of them. -/
def pointed (digits : String) (places : Int) (point : Bool) : String :=
  let count : Int := digits.length
  if places ≤ 0 then
    "0." ++ String.ofList (List.replicate (-places).toNat '0') ++ digits
  else if count ≤ places then
    digits ++ String.ofList (List.replicate (places - count).toNat '0') ++
      (if point then ".0" else "")
  else
    String.ofList (digits.toList.take places.toNat) ++ "." ++
      String.ofList (digits.toList.drop places.toNat)

/-- One digit, the others after a point, and an exponent. -/
def scientific (digits : String) (e : Int) (plus : Bool) : String :=
  let head := String.ofList (digits.toList.take 1)
  let tail := digits.toList.drop 1
  let mantissa := if tail.isEmpty then head else head ++ "." ++ String.ofList tail
  let sign := if e < 0 then "-" else if plus then "+" else ""
  mantissa ++ "e" ++ sign ++ Nat.repr e.natAbs

/-- A decimal in a layout; zero is positional in all of them. -/
def write (l : NumberLayout) (d : Decimal) : String :=
  if d.digits = 0 then (if l.point then "0.0" else "0")
  else
    let digits := Nat.repr d.digits
    let places : Int := digits.length + d.exponent
    if l.positional (places - 1) then pointed digits places l.point
    else scientific digits (places - 1) l.plus

/-- A double in a layout; a sign is written for everything below zero and for negative zero. -/
def float (l : NumberLayout) (x : Float) : String :=
  match Binary.meaning x.toBits with
  | .notANumber => "NaN"
  | .infinite negative => if negative then "-inf" else "inf"
  | .finite p => (if p.negative then "-" else "") ++ l.write (Decimal.shortest l.tie p)

end NumberLayout

end ScriptLang
