/-
# ScriptLang.Run.Operation -- operators and conversions on values

What an operator does is decided by the values it meets.  Integers are words of
64 bits, and mixed numbers are promoted to floating point.  A string is joined
with the text of anything, repeated a number of times, and shortened by a number
of characters; shortening by less than nothing appends the number instead.
-/
import ScriptLang.Number.Reading
import ScriptLang.Run.Fault
import ScriptLang.Text.Blank
import ScriptLang.Value

namespace ScriptLang.Operation

set_option autoImplicit false

/-- Apply a prefix operator.  On integers `not` is the factorial. -/
def unary (op : UnaryOp) (operand : Value) : Except Fault Value :=
  match op, operand with
  | .not, .bool b => .ok (.bool !b)
  | .identity, .int n => .ok (.int n)
  | .identity, .float x => .ok (.float x)
  | .negate, .int n => .ok (.int (-n))
  | .negate, .float x => .ok (.float (-x))
  | .bitNot, .int n => .ok (.int (~~~n))
  | .not, .int n => .ok (.int (Word.factorial n))
  | op, value => .error (.unaryOperand op value.ty)

/-- A binary operator on integers. -/
def onInts (op : BinaryOp) (l r : Int64) : Except Fault Value :=
  match op with
  | .add => .ok (.int (l + r))
  | .sub => .ok (.int (l - r))
  | .mul => .ok (.int (l * r))
  | .div => if r = 0 then .error .divisionByZero else .ok (.int (l / r))
  | .mod => if r = 0 then .error .divisionByZero else .ok (.int (l % r))
  | .pow => .ok (.int (Word.power l r))
  | .bitAnd => .ok (.int (l &&& r))
  | .bitOr => .ok (.int (l ||| r))
  | .bitXor => .ok (.int (l ^^^ r))
  | .shl => .ok (.int (l <<< r))
  | .shr => .ok (.int (l >>> r))
  | .eq => .ok (.bool (l == r))
  | .ne => .ok (.bool (l != r))
  | .lt => .ok (.bool (decide (l < r)))
  | .le => .ok (.bool (decide (l ≤ r)))
  | .gt => .ok (.bool (decide (r < l)))
  | .ge => .ok (.bool (decide (r ≤ l)))
  | .and | .or => .error (.binaryOperands op .int .int)

/-- A binary operator on floating-point numbers. -/
def onFloats (op : BinaryOp) (l r : Float) : Except Fault Value :=
  match op with
  | .add => .ok (.float (l + r))
  | .sub => .ok (.float (l - r))
  | .mul => .ok (.float (l * r))
  | .div => .ok (.float (l / r))
  | .pow => .ok (.float (Float.pow l r))
  | .eq => .ok (.bool (l == r))
  | .ne => .ok (.bool (l != r))
  | .lt => .ok (.bool (decide (l < r)))
  | .le => .ok (.bool (decide (l ≤ r)))
  | .gt => .ok (.bool (decide (r < l)))
  | .ge => .ok (.bool (decide (r ≤ l)))
  | _ => .error (.binaryOperands op .float .float)

/-- A binary operator on truth values. -/
def onBools (op : BinaryOp) (l r : Bool) : Except Fault Value :=
  match op with
  | .and => .ok (.bool (l && r))
  | .or => .ok (.bool (l || r))
  | .eq => .ok (.bool (l == r))
  | .ne => .ok (.bool (l != r))
  | .bitAnd => .ok (.bool (l && r))
  | .bitOr => .ok (.bool (l || r))
  | .bitXor => .ok (.bool (l != r))
  | _ => .error (.binaryOperands op .bool .bool)

/-- Cut a number of characters from the end of a string. -/
def shorten (s : String) (n : Int64) : Except Fault Value :=
  if n < 0 then .ok (.str (s ++ Nat.repr (Word.magnitude n)))
  else
    let count := n.toInt.toNat
    if count ≤ s.length then .ok (.str (String.ofList (s.toList.take (s.length - count))))
    else .error (.removal n s.length)

/-- A string repeated, by doubling. -/
def times (s : String) (n : Nat) : String :=
  if n = 0 then ""
  else
    let half := times (s ++ s) (n / 2)
    if n % 2 = 1 then s ++ half else half
termination_by n
decreasing_by omega

/-- A string repeated, if the result is not too long. -/
def repeated (s : String) (n : Int64) : Except Fault Value :=
  if n < 0 then .error (.repetition n)
  else
    let count := n.toInt.toNat
    if s.utf8ByteSize * count ≤ Fault.longestString then
      .ok (.str (if s.isEmpty then "" else times s count))
    else .error (.tooLong s.utf8ByteSize count)

/-- Apply a binary operator. -/
def binary (op : BinaryOp) (left right : Value) : Except Fault Value :=
  match left, right with
  | .int l, .int r => onInts op l r
  | .float l, .float r => onFloats op l r
  | .int l, .float r => onFloats op l.toFloat r
  | .float l, .int r => onFloats op l r.toFloat
  | .bool l, .bool r => onBools op l r
  | left, right =>
      match op, left, right with
      | .sub, .str l, .int r => shorten l r
      | .mul, .str l, .int r => repeated l r
      | .eq, .str l, .str r => .ok (.bool (l == r))
      | .ne, .str l, .str r => .ok (.bool (l != r))
      | .add, .str l, right => .ok (.str (l ++ right.text))
      | .add, left, .str r => .ok (.str (left.text ++ r))
      | op, left, right => .error (.binaryOperands op left.ty right.ty)

/-- Read a truth value; upper and lower case do not matter. -/
def readBool? (cs : List Char) : Option Bool :=
  if Reading.lower cs = "true".toList then some true
  else if Reading.lower cs = "false".toList then some false
  else none

/-- Convert a value to a type.  Numbers and truth values are read from strings without the white
space around them; everything can be written as a string. -/
def convert (ty : Ty) (value : Value) : Except Fault Value :=
  match ty, value with
  | .string, value => .ok (.str value.text)
  | .int, .int n => .ok (.int n)
  | .int, .str s =>
      match Reading.int? (Text.trimChars s.toList) with
      | some n => .ok (.int n)
      | none => .error (.unreadable s .int)
  | .float, .float x => .ok (.float x)
  | .float, .int n => .ok (.float n.toFloat)
  | .float, .str s =>
      match Reading.float? (Text.trimChars s.toList) with
      | some x => .ok (.float x)
      | none => .error (.unreadable s .float)
  | .bool, .bool b => .ok (.bool b)
  | .bool, .str s =>
      match readBool? (Text.trimChars s.toList) with
      | some b => .ok (.bool b)
      | none => .error (.unreadable s .bool)
  | ty, value => .error (.expected ty value.ty)

end ScriptLang.Operation
