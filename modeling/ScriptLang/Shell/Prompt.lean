/-
# ScriptLang.Shell.Prompt -- a session held line by line

The prompt reads lines until they form a whole submission, and submits it.  A
text that ended where more was expected goes on in the next line, unless that
line is blank.  Programs read from the same input: what they take is gone for
the prompt.

One turn of the prompt reads one line; a turn that has a program to run leaves
the running to its caller and goes on with the outcome.
-/
import ScriptLang.Session
import ScriptLang.Shell.Directive
import ScriptLang.Shell.Notice
import ScriptLang.Syntax.Outline

namespace ScriptLang.Shell

set_option autoImplicit false

/-- A prompt between two lines. -/
structure Prompt where
  session : Session
  /-- The text of a submission that is not complete yet. -/
  pending : String
  showTree : Bool
  showProgram : Bool
  notices : List Notice

/-- How the prompt goes on after a line. -/
inductive Turn where
  | next (p : Prompt)
  /-- A program has to be run first. -/
  | run (a : Attempt) (p : Prompt)
  | leave (exitCode : Nat) (p : Prompt)

namespace Prompt

/-- Write a text, whatever programs may do. -/
def say (p : Prompt) (text : String) : Prompt :=
  let world := p.session.world
  { p with session := { p.session with world := { world with output := world.output ++ text } } }

def sayLine (p : Prompt) (text : String) : Prompt := p.say (text ++ "\n")

def notify (p : Prompt) (notices : List Notice) : Prompt :=
  { p with notices := p.notices ++ notices }

def banner : String :=
  "Stonylang REPL v0.1.0\n" ++ "Type #help for help, #quit to exit.\n\n"

/-- A prompt that has said what it is. -/
def start (w : World) : Prompt := say ⟨.start w, "", false, false, []⟩ banner

/-- What invites a line from someone at a terminal. -/
def invitation (p : Prompt) : String := if p.pending.isEmpty then "» " else "· "

/-- Say goodbye and stop. -/
def goodbye (p : Prompt) : Turn := .leave 0 (p.sayLine "Goodbye!")

/-- The answer to switching something on or off. -/
def toggleText (what : String) (on : Bool) : String :=
  (if on then "Showing " else "Not showing ") ++ what ++ "."

/-- A variable with its type, and its value if it has one. -/
def variableLine : Variable × Option Value → String
  | (v, some value) => v.name ++ ": " ++ v.ty.name ++ " = " ++ value.text
  | (v, none) => v.name ++ ": " ++ v.ty.name

/-- The text that clears a screen and moves to its upper left corner. -/
def clearText : String := "\x1b[2J\x1b[1;1H"

/-- Do what a command says. -/
def obey (p : Prompt) : Directive → Turn
  | .quit => p.goodbye
  | .help => .next (p.say Directive.helpText)
  | .showTree =>
      let p := { p with showTree := !p.showTree }
      .next (p.sayLine (toggleText "parse trees" p.showTree))
  | .showProgram =>
      let p := { p with showProgram := !p.showProgram }
      .next (p.sayLine (toggleText "bound programs" p.showProgram))
  | .clear => .next (p.say clearText)
  | .reset => .next { p with session := p.session.reset }
  | .vars => .next (p.session.vars.foldl (fun p v => p.sayLine (variableLine v)) p)
  | .unknown line => .next ((p.sayLine ("Unknown command: " ++ line)).sayLine "Type #help for help.")

/-- Submit a tree.  A program that is shown is made once to be printed and once to be run. -/
def submit (p : Prompt) (tree : Syntax.Tree) : Turn :=
  let p := if p.showTree then p.say tree.root.outline.render else p
  let a := p.session.attempt tree
  match a.diagnostics with
  | [] =>
      if p.showProgram then .run a.printed (p.say a.programText)
      else .run a p
  | ds =>
      .next (notify { p with session := p.session.abandon a.nextId } (ds.map .diagnostic))

/-- Go on after the program of a submission stopped. -/
def finish (p : Prompt) (a : Attempt) (o : Outcome Value) : Prompt :=
  let (reply, session) := p.session.finish Reply.isValue a o
  let p := { p with session := session }
  match reply with
  | .value v => if v.isVoid then p else p.sayLine v.text
  | .fault f => p.notify [.fault f]
  | .refused _ => p

/-- Submit a text if it is complete, or if nothing more is to come. -/
def consider (p : Prompt) (text : String) (last : Bool) : Turn :=
  let tree := Syntax.Tree.ofText text
  if last || !tree.incomplete then submit { p with pending := "" } tree
  else .next { p with pending := text }

/-- Take a line. -/
def take (p : Prompt) (line : String) : Turn :=
  if p.pending.isEmpty then
    if Text.isBlankText line then .next p
    else
      match Directive.ofLine? line with
      | some directive => p.obey directive
      | none => p.consider line false
  else p.consider (p.pending ++ "\n" ++ line) (Text.isBlankText line)

/-- A line without the carriage return before its newline; the last line may have no newline. -/
def lineBytes (line : List UInt8) (ended : Bool) : List UInt8 :=
  if ended && line.getLast? = some 13 then line.dropLast else line

/-- Read a line and take it. -/
def step (p : Prompt) : Turn :=
  let world := p.session.world
  if world.input.isEmpty then p.goodbye
  else
    let (line, after) := world.takeLine
    let ended := decide (line.length < world.input.length)
    let p := { p with session := { p.session with world := after } }
    match World.decode? (lineBytes line ended) with
    | some text => p.take text
    | none => .leave 1 (p.notify [.failure World.undecodable])

def report (p : Prompt) (exitCode : Nat) : Report := ⟨exitCode, p.session.world.output, p.notices⟩

/-- Take at most `turns` turns, with at most `fuel` steps for each program. -/
def runTurns (fuel : Nat) : Nat → Prompt → Option Report
  | 0, _ => none
  | turns + 1, p =>
      match p.step with
      | .next p => runTurns fuel turns p
      | .run a p =>
          match runProgram fuel a.lowered.program p.session.world with
          | some o => runTurns fuel turns (p.finish a o)
          | none => none
      | .leave exitCode p => some (p.report exitCode)

/-- Read the whole input.  Every turn but the last takes at least one byte. -/
def run (fuel : Nat) (p : Prompt) : Option Report :=
  runTurns fuel (p.session.world.input.length + 1) p

end Prompt

end ScriptLang.Shell
