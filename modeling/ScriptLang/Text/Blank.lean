/-
# ScriptLang.Text.Blank -- surrounding white space

The Unicode property White_Space, and the text that is left when every such
character is cut from both ends.
-/
import ScriptLang.Text.Source

namespace ScriptLang.Text

set_option autoImplicit false

/-- The characters with the property White_Space. -/
def isBlank (c : Char) : Bool :=
  let n := c.toNat
  (0x9 ≤ n && n ≤ 0xD) || n == 0x20 || n == 0x85 || n == 0xA0 || n == 0x1680 ||
    (0x2000 ≤ n && n ≤ 0x200A) || n == 0x2028 || n == 0x2029 || n == 0x202F || n == 0x205F ||
    n == 0x3000

/-- Cut white space from both ends. -/
def trimChars (cs : List Char) : List Char := dropTail isBlank (cs.dropWhile isBlank)

def trim (s : String) : String := String.ofList (trimChars s.toList)

/-- Whether nothing but white space stands in the text. -/
def isBlankText (s : String) : Bool := s.toList.all isBlank

end ScriptLang.Text
