/-
# ScriptLang.Text.Quoted -- text between quotes

The quoted form shows a text exactly and on one line: quotes and backslashes
are escaped, five control characters have short names, and every other
character that is unprintable or combining is given by its code point in braces.
-/
import ScriptLang.Text.Printable

namespace ScriptLang.Text

set_option autoImplicit false

/-- The code point in lower-case hexadecimal. -/
def hexOf (c : Char) : List Char := Nat.toDigits 16 c.toNat

/-- The code point of a character between braces, after a backslash and a `u`. -/
def codeEscape (c : Char) : List Char := ['\\', 'u', '\x7b'] ++ hexOf c ++ ['\x7d']

/-- How one character stands between quotes. -/
def escapeChar (c : Char) : List Char :=
  if c = '\x00' then ['\\', '0']
  else if c = '\t' then ['\\', 't']
  else if c = '\r' then ['\\', 'r']
  else if c = '\n' then ['\\', 'n']
  else if c = '\\' then ['\\', '\\']
  else if c = '"' then ['\\', '"']
  else if isCombining c then codeEscape c
  else if isPrintable c then [c]
  else codeEscape c

/-- The text between quotes. -/
def quote (s : String) : String :=
  String.ofList ('"' :: s.toList.flatMap escapeChar ++ ['"'])

end ScriptLang.Text
