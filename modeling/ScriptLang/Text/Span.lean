/-
# ScriptLang.Text.Span -- byte ranges of a text

Every piece of source text is named by the half-open byte range it occupies.
A range is data only: nothing forces its start below its stop, so the length of
an inverted range is zero.
-/

namespace ScriptLang

set_option autoImplicit false

/-- The half-open byte range from `start` up to `stop`. -/
structure Span where
  start : Nat
  stop : Nat
deriving DecidableEq, Inhabited

namespace Span

/-- The empty range at one offset. -/
def point (offset : Nat) : Span := ⟨offset, offset⟩

/-- Number of bytes covered; an inverted range covers none. -/
def length (s : Span) : Nat := s.stop - s.start

def isEmpty (s : Span) : Bool := s.length == 0

/-- The least range that covers both. -/
def merge (a b : Span) : Span := ⟨min a.start b.start, max a.stop b.stop⟩

/-- From the start of the first range to the stop of the second. -/
def through (a b : Span) : Span := ⟨a.start, b.stop⟩

/-- The written form, `3..8`. -/
def text (s : Span) : String := toString s.start ++ ".." ++ toString s.stop

@[simp] theorem through_start (a b : Span) : (a.through b).start = a.start := rfl
@[simp] theorem through_stop (a b : Span) : (a.through b).stop = b.stop := rfl
@[simp] theorem length_point (n : Nat) : (point n).length = 0 := by simp [point, length]

end Span

end ScriptLang
