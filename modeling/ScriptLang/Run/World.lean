/-
# ScriptLang.Run.World -- what a run can read and change

The world of a run is its store, the bytes it has not read yet, the text it has
written, the stream that it writes to, and a sequence of random draws, of which
some have been used.
-/
import ScriptLang.Run.Fault
import ScriptLang.Run.Store
import ScriptLang.Text.Source

namespace ScriptLang

set_option autoImplicit false

/-- A sequence of random words, and how many of them have been used. -/
structure Draws where
  word : Nat → UInt64
  used : Nat

namespace Draws

/-- Spread the bits of a word. -/
def mix (word : UInt64) : UInt64 :=
  let word := (word ^^^ (word >>> 30)) * 0xBF58476D1CE4E5B9
  let word := (word ^^^ (word >>> 27)) * 0x94D049BB133111EB
  word ^^^ (word >>> 31)

/-- The mixed multiples of an odd number, after a seed. -/
def ofSeed (seed : UInt64) : Draws := ⟨fun n => mix (seed + n.toUInt64 * 0x9E3779B97F4A7C15), 0⟩

/-- A random whole number from zero up to a positive bound. -/
def below (word : UInt64) (max : Int64) : Int64 :=
  Int64.ofNat (word.toNat % max.toInt.toNat)

/-- A random number from zero up to one: the upper 53 bits as a fraction. -/
def unit (word : UInt64) : Float :=
  (word >>> 11).toFloat * Binary.ofRatio 1 9007199254740992

end Draws

/-- A stream to write to. -/
structure Sink where
  /-- What is taken of a text, after what was taken before it, and why writing fails, if it does. -/
  accept : (written text : String) → String × Option String

namespace Sink

/-- A stream that takes everything. -/
def ready : Sink := ⟨fun _ text => (text, none)⟩

/-- A stream that takes nothing. -/
def closed : Sink := ⟨fun _ _ => ("", some "closed")⟩

end Sink

/-- What a run can read and change. -/
structure World where
  store : Store
  input : List UInt8
  /-- What has been written. -/
  output : String
  sink : Sink
  draws : Draws

/-- What a step of a run gives: a value or a fault, and the world after it. -/
abbrev Outcome (α : Type) := Except Fault α × World

namespace Outcome

/-- Go on with the value, if there is one. -/
@[inline] def andThen {α β : Type} (o : Outcome α) (f : α → World → Outcome β) : Outcome β :=
  match o with
  | (.ok a, w) => f a w
  | (.error e, w) => (.error e, w)

end Outcome

namespace World

/-- A world with an empty store and nothing written. -/
def start (input : List UInt8) (draws : Draws) : World := ⟨.empty, input, "", .ready, draws⟩

/-- Write a text. -/
def write (w : World) (text : String) : Outcome Unit :=
  match w.sink.accept w.output text with
  | (taken, none) => (.ok (), { w with output := w.output ++ taken })
  | (taken, some reason) => (.error (.stream reason), { w with output := w.output ++ taken })

/-- The byte that ends a line. -/
def newline : UInt8 := 10

/-- Text from bytes in UTF-8. -/
def decode? (bytes : List UInt8) : Option String := String.fromUTF8? ⟨bytes.toArray⟩

/-- The bytes up to the next newline, which is used up too. -/
def takeLine (w : World) : List UInt8 × World :=
  let line := w.input.takeWhile (· ≠ newline)
  (line, { w with input := w.input.drop (line.length + 1) })

/-- What is wrong with bytes that are no text. -/
def undecodable : String := "stream did not contain valid UTF-8"

/-- Read a line.  Its bytes are used up even if they are no text; carriage returns and newlines at
its end are cut. -/
def readLine (w : World) : Outcome String :=
  let (line, w) := w.takeLine
  match decode? line with
  | some text => (.ok (String.ofList (Text.dropTail Text.isLineEnd text.toList)), w)
  | none => (.error (.stream undecodable), w)

/-- Use the next random word. -/
def draw (w : World) : UInt64 × World :=
  (w.draws.word w.draws.used, { w with draws := { w.draws with used := w.draws.used + 1 } })

end World

end ScriptLang
