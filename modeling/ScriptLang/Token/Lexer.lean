/-
# ScriptLang.Token.Lexer -- source text as tokens

At every position the longest match is taken.  The first character decides
which kinds can match there, so `scan` looks at it and measures one match: blanks
and comments are trivia, and what matches nothing is a bad piece -- one
character, an integer that fits no word, or an unfinished string up to its last
complete element.  Every character is in exactly one match.
-/
import ScriptLang.Number.Reading
import ScriptLang.Text.Source
import ScriptLang.Token.Basic

namespace ScriptLang

set_option autoImplicit false

/-- A piece of source text that is not trivia. -/
inductive Piece where
  | token (t : Token)
  | bad (text : String)
deriving Inhabited

/-- A piece and where it stands. -/
structure Lexeme where
  piece : Piece
  span : Span
deriving Inhabited

namespace Lexer

/-- What one match means; trivia has no piece. -/
structure Match where
  piece : Option Piece
  /-- How many characters follow the first one. -/
  more : Nat

def isBlank (c : Char) : Bool := c = ' ' || c = '\t' || c = '\n' || c = '\r'

def isDigit (c : Char) : Bool := Reading.isDigit c

/-- The first characters of identifiers: ASCII letters and the underscore. -/
def isWordStart (c : Char) : Bool :=
  ('a' ≤ c && c ≤ 'z') || ('A' ≤ c && c ≤ 'Z') || c = '_'

def isWordPart (c : Char) : Bool := isWordStart c || isDigit c

/-- The fraction at the front: a point and at least one digit, or nothing. -/
def fraction : List Char → List Char
  | '.' :: cs =>
      let ds := cs.takeWhile isDigit
      if ds.isEmpty then [] else '.' :: ds
  | _ => []

/-- The sign at the front, or nothing. -/
def signPart : List Char → List Char
  | '+' :: _ => ['+']
  | '-' :: _ => ['-']
  | _ => []

/-- The exponent at the front: a mark, an optional sign and at least one digit, or nothing. -/
def exponent : List Char → List Char
  | c :: cs =>
      if c = 'e' || c = 'E' then
        let s := signPart cs
        let ds := (cs.drop s.length).takeWhile isDigit
        if ds.isEmpty then [] else c :: (s ++ ds)
      else []
  | [] => []

/-- A number that starts with the digit `c`.  Without fraction and exponent it is
an integer, which is bad if it fits no word. -/
def number (c : Char) (cs : List Char) : Match :=
  let ds := cs.takeWhile isDigit
  let afterDigits := cs.drop ds.length
  let f := fraction afterDigits
  let x := exponent (afterDigits.drop f.length)
  let tail := ds ++ f ++ x
  let text := c :: tail
  if f.isEmpty && x.isEmpty then
    match Reading.int? text with
    | some n => ⟨some (.token (.int n)), tail.length⟩
    | none => ⟨some (.bad (String.ofList text)), tail.length⟩
  else
    match Reading.decimal? text with
    | some v => ⟨some (.token (.float v)), tail.length⟩
    | none => ⟨some (.bad (String.ofList text)), tail.length⟩

/-- The complete elements after an opening quote, and whether a closing quote follows them.
An element is a character other than a quote and a backslash, or a backslash with the next
character, which is not a newline. -/
def stringBody : List Char → List Char × Bool
  | [] => ([], false)
  | '"' :: _ => ([], true)
  | '\\' :: c :: cs =>
      if c = '\n' then ([], false)
      else
        let rest := stringBody cs
        ('\\' :: c :: rest.1, rest.2)
  | ['\\'] => ([], false)
  | c :: cs =>
      let rest := stringBody cs
      (c :: rest.1, rest.2)

/-- The text that string elements stand for.  Six escapes have a meaning; a backslash before
any other character stands for itself. -/
def unescape : List Char → List Char
  | [] => []
  | '\\' :: 'n' :: cs => '\n' :: unescape cs
  | '\\' :: 't' :: cs => '\t' :: unescape cs
  | '\\' :: 'r' :: cs => '\r' :: unescape cs
  | '\\' :: '0' :: cs => '\x00' :: unescape cs
  | '\\' :: '\\' :: cs => '\\' :: unescape cs
  | '\\' :: '"' :: cs => '"' :: unescape cs
  | c :: cs => c :: unescape cs

/-- A string that starts with a quote. -/
def string (cs : List Char) : Match :=
  let body := stringBody cs
  if body.2 then ⟨some (.token (.string (String.ofList (unescape body.1)))), body.1.length + 1⟩
  else ⟨some (.bad (String.ofList ('"' :: body.1))), body.1.length⟩

/-- A keyword or an identifier that starts with `c`. -/
def word (c : Char) (cs : List Char) : Match :=
  let tail := cs.takeWhile isWordPart
  let text := String.ofList (c :: tail)
  match Keyword.all.find? (·.text = text) with
  | some k => ⟨some (.token (.keyword k)), tail.length⟩
  | none => ⟨some (.token (.ident text)), tail.length⟩

/-- The longer of two marks. -/
def longer (best : Option Mark) (m : Mark) : Option Mark :=
  match best with
  | none => some m
  | some b => if b.text.length < m.text.length then some m else some b

/-- The longest mark at the front. -/
def mark? (cs : List Char) : Option Mark :=
  (Mark.all.filter fun m => m.text.toList.isPrefixOf cs).foldl longer none

/-- Measure the match at a position where `c` is followed by `cs`. -/
def scan (c : Char) (cs : List Char) : Match :=
  if isBlank c then ⟨none, (cs.takeWhile isBlank).length⟩
  else if c = '/' && cs.head? = some '/' then ⟨none, (cs.takeWhile (· ≠ '\n')).length⟩
  else if isDigit c then number c cs
  else if isWordStart c then word c cs
  else if c = '"' then string cs
  else
    match mark? (c :: cs) with
    | some m => ⟨some (.token (.mark m)), m.text.length - 1⟩
    | none => ⟨some (.bad (String.ofList [c])), 0⟩

/-- The lexemes of a text that starts at an offset. -/
def lexemesFrom (offset : Nat) : List Char → List Lexeme
  | [] => []
  | c :: cs =>
      let m := scan c cs
      let stop := offset + c.utf8Size + Text.width (cs.take m.more)
      let rest := lexemesFrom stop (cs.drop m.more)
      match m.piece with
      | none => rest
      | some piece => ⟨piece, offset, stop⟩ :: rest
termination_by cs => cs.length
decreasing_by simp only [List.length_drop, List.length_cons]; omega

end Lexer

/-- A token and where it stands. -/
structure Located where
  token : Token
  span : Span
deriving Inhabited

namespace Lexeme

/-- All lexemes of a text, in order. -/
def all (text : String) : List Lexeme := Lexer.lexemesFrom 0 text.toList

def token? (l : Lexeme) : Option Located :=
  match l.piece with
  | .token t => some ⟨t, l.span⟩
  | .bad _ => none

/-- The text of a bad piece, and where it stands. -/
def bad? (l : Lexeme) : Option (String × Span) :=
  match l.piece with
  | .token _ => none
  | .bad text => some (text, l.span)

end Lexeme

end ScriptLang
