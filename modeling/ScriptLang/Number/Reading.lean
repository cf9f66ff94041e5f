/-
# ScriptLang.Number.Reading -- numbers read from text

Only ASCII digits count.  An integer is an optional sign and one or more digits,
with a value among the signed words of 64 bits.  A floating-point number is an
optional sign before `inf`, `infinity` or `nan` in any case, or before digits
with an optional point, at least one digit in all, and an optional exponent.
The digits of an exponent count until it has reached 2 ^ 16.
-/
import ScriptLang.Number.Binary

namespace ScriptLang.Reading

set_option autoImplicit false

def isDigit (c : Char) : Bool := '0' ≤ c && c ≤ '9'

/-- The number that a row of digits stands for. -/
def value (ds : List Char) : Nat := ds.foldl (fun n d => 10 * n + (d.toNat - 48)) 0

/-- The number of a non-empty row of nothing but digits. -/
def digits? (ds : List Char) : Option Nat :=
  if ds.isEmpty || !ds.all isDigit then none else some (value ds)

/-- The word that a sign and a magnitude stand for, if there is one. -/
def word? (negative : Bool) (n : Nat) : Option Int64 :=
  if negative then
    if n ≤ Nat.pow 2 63 then some (Int64.ofInt (-n)) else none
  else
    if n < Nat.pow 2 63 then some (Int64.ofInt n) else none

/-- Split off a sign. -/
def sign : List Char → Bool × List Char
  | '-' :: cs => (true, cs)
  | '+' :: cs => (false, cs)
  | cs => (false, cs)

/-- Read an integer. -/
def int? (cs : List Char) : Option Int64 :=
  let signed := sign cs
  (digits? signed.2).bind (word? signed.1)

/-- The size of an exponent.  Digits after it has reached 2 ^ 16 do not count, so that it stays
small however many there are. -/
def exponentSize (ds : List Char) : Nat :=
  ds.foldl (fun n d => if n < 65536 then 10 * n + (d.toNat - 48) else n) 0

/-- Read the exponent after its mark: an optional sign and digits. -/
def exponent? (cs : List Char) : Option Int :=
  let signed := sign cs
  if signed.2.isEmpty || !signed.2.all isDigit then none
  else
    let size : Int := exponentSize signed.2
    some (if signed.1 then -size else size)

/-- Read what may follow the digits: nothing, or a mark with its exponent. -/
def scaleOf? : List Char → Option Int
  | [] => some 0
  | c :: cs => if c = 'e' || c = 'E' then exponent? cs else none

/-- The double nearest to the number of a row of digits times a power of ten.  Four hundred places
on either side of the point are more than any double has, so beyond them the digits do not
matter. -/
def scaled (ds : List Char) (exponent : Int) : Float :=
  let significant := ds.dropWhile (· = '0')
  let places : Int := significant.length + exponent
  if significant.isEmpty || places < -400 then Binary.ofRatio 0 1
  else if places > 400 then Binary.infinity
  else Binary.ofDecimal (value significant) exponent

/-- Read an unsigned decimal with an optional point and exponent. -/
def decimal? (cs : List Char) : Option Float :=
  let whole := cs.takeWhile isDigit
  let rest := cs.dropWhile isDigit
  let hasPoint := rest.head? = some '.'
  let fraction := if hasPoint then (rest.drop 1).takeWhile isDigit else []
  let rest := if hasPoint then (rest.drop 1).dropWhile isDigit else rest
  if whole.isEmpty && fraction.isEmpty then none
  else
    (scaleOf? rest).map fun e => scaled (whole ++ fraction) (e - fraction.length)

def lower (cs : List Char) : List Char := cs.map Char.toLower

/-- Not a number. -/
def nan : Float := Float.ofBits (UInt64.ofNat (2047 * Nat.pow 2 52 + Nat.pow 2 51))

/-- Read an unsigned floating-point number. -/
def magnitude? (cs : List Char) : Option Float :=
  if lower cs = "inf".toList || lower cs = "infinity".toList then
    some Binary.infinity
  else if lower cs = "nan".toList then some nan
  else decimal? cs

/-- Read a floating-point number. -/
def float? (cs : List Char) : Option Float :=
  let signed := sign cs
  (magnitude? signed.2).map fun x => if signed.1 then -x else x

end ScriptLang.Reading
