/-
# ScriptLang.Text.Source -- lines and columns of a text

A source text is split into lines at every newline character.  An offset counts
bytes; a column counts characters.  An offset past the end stands for the end,
and an offset inside a character has the column that its bytes would have.
-/
import ScriptLang.Text.Span

namespace ScriptLang

set_option autoImplicit false

namespace Text

/-- Bytes that the characters take in UTF-8. -/
def width : List Char → Nat
  | [] => 0
  | c :: cs => c.utf8Size + width cs

/-- The characters after the first `n` bytes; a character that is cut is dropped. -/
def dropBytes : List Char → Nat → List Char
  | cs, 0 => cs
  | [], _ + 1 => []
  | c :: cs, n + 1 => dropBytes cs (n + 1 - c.utf8Size)

/-- The characters that lie wholly in the first `n` bytes. -/
def takeBytes : List Char → Nat → List Char
  | _, 0 => []
  | [], _ + 1 => []
  | c :: cs, n + 1 => if c.utf8Size ≤ n + 1 then c :: takeBytes cs (n + 1 - c.utf8Size) else []

/-- How many characters the first `n` bytes hold, if they end at a character's end. -/
def charsIn? : List Char → Nat → Option Nat
  | _, 0 => some 0
  | [], _ + 1 => none
  | c :: cs, n + 1 =>
      if c.utf8Size ≤ n + 1 then (charsIn? cs (n + 1 - c.utf8Size)).map (· + 1) else none

/-- Cut off the longest tail of characters that satisfy `p`. -/
def dropTail (p : Char → Bool) (cs : List Char) : List Char :=
  (cs.reverse.dropWhile p).reverse

/-- A carriage return or a newline. -/
def isLineEnd (c : Char) : Bool := c = '\n' || c = '\r'

@[simp] theorem width_nil : width [] = 0 := rfl

@[simp] theorem width_append (xs ys : List Char) : width (xs ++ ys) = width xs + width ys := by
  induction xs with
  | nil => simp [width]
  | cons c cs ih => simp [width, ih, Nat.add_assoc]

theorem width_eq_utf8ByteSize (cs : List Char) : width cs = (String.ofList cs).utf8ByteSize := by
  induction cs with
  | nil => simp
  | cons c cs ih =>
      have split : String.ofList (c :: cs) = String.ofList [c] ++ String.ofList cs := by
        rw [← String.ofList_append, List.singleton_append]
      rw [split, String.utf8ByteSize_append, ← String.singleton_eq_ofList,
        String.utf8ByteSize_singleton, ← ih, width]

/-- The characters of a text take as many bytes as the text. -/
@[simp] theorem width_toList (s : String) : width s.toList = s.utf8ByteSize := by
  rw [width_eq_utf8ByteSize, String.ofList_toList]

end Text

/-- A text whose offsets can be turned into lines and columns. -/
structure Source where
  text : String
deriving DecidableEq, Inhabited

namespace Source

/-- Number of bytes. -/
def size (s : Source) : Nat := s.text.utf8ByteSize

def isEmpty (s : Source) : Bool := s.text.isEmpty

/-- Offsets just after each newline of `cs`, where `cs` starts at `offset`. -/
def startsAfter (offset : Nat) : List Char → List Nat
  | [] => []
  | c :: cs =>
      let next := offset + c.utf8Size
      if c = '\n' then next :: startsAfter next cs else startsAfter next cs

/-- The offset of the first byte of every line, in order. -/
def lineStarts (s : Source) : List Nat := 0 :: startsAfter 0 s.text.toList

def lineCount (s : Source) : Nat := s.lineStarts.length

/-- Zero-based index of the line that holds `offset`. -/
def lineIndex (s : Source) (offset : Nat) : Nat :=
  (s.lineStarts.takeWhile (· ≤ offset)).length - 1

/-- One-based line and column of an offset. -/
def lineCol (s : Source) (offset : Nat) : Nat × Nat :=
  let offset := min offset s.size
  let line := s.lineIndex offset
  let start := s.lineStarts.getD line 0
  let column := (Text.charsIn? (Text.dropBytes s.text.toList start) (offset - start)).getD
    (offset - start)
  (line + 1, column + 1)

/-- The text of a zero-based line without its terminator; nothing past the last line. -/
def lineText (s : Source) (index : Nat) : String :=
  match s.lineStarts[index]? with
  | none => ""
  | some start =>
      let stop := (s.lineStarts[index + 1]?).getD s.size
      let line := Text.takeBytes (Text.dropBytes s.text.toList start) (stop - start)
      String.ofList (Text.dropTail Text.isLineEnd line)

end Source

end ScriptLang
