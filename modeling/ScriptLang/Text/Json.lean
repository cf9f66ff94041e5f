/-
# ScriptLang.Text.Json -- JSON documents in their indented form

Objects keep the order of their fields.  Numbers are kept as the text that
stands in the document, so that how a number is written is decided where its
meaning is known.
-/

namespace ScriptLang

set_option autoImplicit false

inductive Json where
  | null
  | bool (b : Bool)
  | number (text : String)
  | str (s : String)
  | arr (items : List Json)
  | obj (fields : List (String × Json))

namespace Json

/-- Two lower-case hexadecimal digits. -/
def hex2 (n : Nat) : List Char :=
  [Nat.digitChar (n / 16 % 16), Nat.digitChar (n % 16)]

/-- How a character stands in a JSON string: quotes, backslashes and control
characters are escaped, and nothing else is. -/
def escapeChar (c : Char) : List Char :=
  if c = '"' then ['\\', '"']
  else if c = '\\' then ['\\', '\\']
  else if c = '\n' then ['\\', 'n']
  else if c = '\r' then ['\\', 'r']
  else if c = '\t' then ['\\', 't']
  else if c = '\x08' then ['\\', 'b']
  else if c = '\x0c' then ['\\', 'f']
  else if c.toNat < 0x20 then ['\\', 'u', '0', '0'] ++ hex2 c.toNat
  else [c]

def quote (s : String) : String :=
  String.ofList ('"' :: s.toList.flatMap escapeChar ++ ['"'])

/-- A newline and the indent of a depth, two blanks a level. -/
def newline (depth : Nat) : String := String.ofList ('\n' :: List.replicate (2 * depth) ' ')

mutual

/-- Add the indented form of a document to `text`. -/
def write (depth : Nat) (text : String) : Json → String
  | .null => text ++ "null"
  | .bool b => text ++ (if b then "true" else "false")
  | .number n => text ++ n
  | .str s => text ++ quote s
  | .arr [] => text ++ "[]"
  | .arr (item :: items) =>
      let text := write (depth + 1) (text ++ "[" ++ newline (depth + 1)) item
      writeItems (depth + 1) text items ++ newline depth ++ "]"
  | .obj [] => text ++ "\x7b\x7d"
  | .obj ((key, value) :: fields) =>
      let text := text ++ "\x7b" ++ newline (depth + 1) ++ quote key ++ ": "
      writeFields (depth + 1) (write (depth + 1) text value) fields ++ newline depth ++ "\x7d"

def writeItems (depth : Nat) (text : String) : List Json → String
  | [] => text
  | item :: items => writeItems depth (write depth (text ++ "," ++ newline depth) item) items

def writeFields (depth : Nat) (text : String) : List (String × Json) → String
  | [] => text
  | (key, value) :: fields =>
      let text := text ++ "," ++ newline depth ++ quote key ++ ": "
      writeFields depth (write depth text value) fields

end

/-- The indented form of a document. -/
def pretty (document : Json) : String := write 0 "" document

end Json

end ScriptLang
