/-
# ScriptLang.Main -- the program

Input is read line by line, as much as is needed, and output is written as it
comes.  What is done with either is decided elsewhere.
-/
import ScriptLang.Run.Demand
import ScriptLang.Shell.Command

namespace ScriptLang.Shell

set_option autoImplicit false

/-- The bytes up to the end of a line, after those read before, latest first. -/
partial def readLine (input : IO.FS.Stream) (line : List UInt8) : IO (List UInt8) := do
  match (← input.read 1).toList with
  | [] => return line.reverse
  | byte :: _ =>
      if byte = World.newline then return (byte :: line).reverse
      else readLine input (byte :: line)

/-- Read on until a number of lines is waiting, or nothing more comes. -/
partial def fill (lines : Nat) (w : World) : IO World := do
  if lines ≤ w.input.count World.newline then return w
  else
    match ← readLine (← IO.getStdin) [] with
    | [] => return w
    | line => fill lines { w with input := w.input ++ line }

/-- Write what waits to be written. -/
def drain (w : World) : IO World := do
  let output ← IO.getStdout
  output.putStr w.output
  output.flush
  return { w with output := "" }

/-- Run a program to its end. -/
partial def runImage (image : Image) (m : Machine) : IO (Outcome Value) := do
  let w ← fill (m.demand image) (← drain m.world)
  match Machine.step image { m with world := w } with
  | .running m => runImage image m
  | .stopped result w => return (result, w)

def runAttempt (a : Attempt) (w : World) : IO (Outcome Value) :=
  runImage (.load a.lowered.program) (.start w)

/-- Report what is to be reported. -/
def notify (notices : List Notice) : IO Unit := notices.forM fun n => IO.eprintln n.text

/-- Write a report. -/
def finish (r : Report) : IO UInt32 := do
  IO.print r.output
  notify r.notices
  return r.exitCode.toUInt32

/-- Hold a session. -/
partial def converse (p : Prompt) : IO UInt32 := do
  let w ← drain p.session.world
  notify p.notices
  if ← (← IO.getStdin).isTty then
    IO.print p.invitation
    (← IO.getStdout).flush
  let w ← fill 1 w
  let p := { p with session := { p.session with world := w }, notices := [] }
  match p.step with
  | .next p => converse p
  | .run a p => converse (p.finish a (← runAttempt a p.session.world))
  | .leave exitCode p => finish (p.report exitCode)

/-- The text of a file. -/
def readFile (path : String) : IO (Except FileError String) := do
  try
    let bytes ← IO.FS.readBinFile path
    match String.fromUTF8? bytes with
    | some text => return .ok text
    | none => return .error .undecodable
  catch
    | .noFileOrDirectory .. => return .error .missing
    | e => return .error (.other (toString e))

/-- Draws that differ from run to run. -/
def randomDraws : IO Draws := do
  let bytes ← IO.getRandomBytes 8
  return .ofSeed (bytes.foldl (fun seed byte => seed * 256 + byte.toUInt64) 0)

end ScriptLang.Shell

open ScriptLang.Shell in
def main (args : List String) : IO UInt32 := do
  let world := ScriptLang.World.start [] (← randomDraws)
  match Command.ofArgs? args with
  | some (.file action path) =>
      match Stage.ofFile action path (← readFile path) world with
      | .done report => finish report
      | .run a w => finish (.ofOutcome (← runAttempt a w))
  | some .prompt => converse (.start world)
  | some .version => finish .version
  | none => finish .misused
