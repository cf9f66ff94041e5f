/-
# ScriptLang.Shell.Command -- the command line

A command works on one file, or holds a session.  Running, like a turn of the
prompt, leaves the running of the program to its caller.
-/
import ScriptLang.Shell.Prompt
import ScriptLang.Syntax.Json

namespace ScriptLang.Shell

set_option autoImplicit false

/-- What to do with a file. -/
inductive Action where
  | run (showTree showProgram : Bool)
  | check
  | tokens
  | parse
deriving DecidableEq, Inhabited

inductive Command where
  | file (action : Action) (path : String)
  | prompt
  | version
deriving DecidableEq, Inhabited

/-- The words after the name of a command: switches, and what is no switch. -/
structure Words where
  switches : List String
  rest : List String

namespace Words

/-- Tell switches apart; after `--` there are none. -/
def ofArgs : List String → Words
  | [] => ⟨[], []⟩
  | arg :: args =>
      if arg = "--" then ⟨[], args⟩
      else
        let more := ofArgs args
        if arg.startsWith "-" && arg ≠ "-" then { more with switches := arg :: more.switches }
        else { more with rest := arg :: more.rest }

/-- Whether every switch is one of a list, and none is given twice. -/
def allowed (w : Words) (switches : List String) : Bool :=
  w.switches.all (· ∈ switches) && decide w.switches.Nodup

end Words

namespace Command

/-- A command on the one file that is named. -/
def onFile? (w : Words) (switches : List String) (action : Action) : Option Command :=
  match w.allowed switches, w.rest with
  | true, [path] => some (.file action path)
  | _, _ => none

/-- The command that arguments name; without arguments it is the prompt. -/
def ofArgs? : List String → Option Command
  | [] => some .prompt
  | name :: args =>
      let w := Words.ofArgs args
      match name with
      | "run" =>
          onFile? w ["--show-tree", "--show-program"]
            (.run ("--show-tree" ∈ w.switches) ("--show-program" ∈ w.switches))
      | "check" => onFile? w [] .check
      | "tokens" => onFile? w [] .tokens
      | "parse" => onFile? w [] .parse
      | "repl" => if w.switches.isEmpty && w.rest.isEmpty then some .prompt else none
      | "--version" | "-V" => some .version
      | _ => none

end Command

/-- A command that is done, or has a program to run first. -/
inductive Stage where
  | done (r : Report)
  | run (a : Attempt) (w : World)

namespace Report

/-- A command that failed. -/
def failed (reason : String) : Report := ⟨1, "", [.failure reason]⟩

/-- A command that succeeded. -/
def succeeded (output : String) : Report := ⟨0, output, []⟩

/-- A program with problems. -/
def refused (diagnostics : List Diagnostic) : Report := ⟨1, "", diagnostics.map .diagnostic⟩

/-- The name and version of the program. -/
def version : Report := succeeded "stony 0.1.0\n"

/-- Arguments that name no command. -/
def misused : Report := ⟨2, "", [.usage]⟩

/-- A program that stopped: its output, and its value unless that is void. -/
def ofOutcome (o : Outcome Value) : Report :=
  match o with
  | (.ok v, w) => succeeded (if v.isVoid then w.output else w.output ++ v.text ++ "\n")
  | (.error f, w) => ⟨1, w.output, [.failure f.text]⟩

end Report

namespace Action

/-- Tokens, one a line. -/
def tokenLines (tokens : List Located) : String :=
  tokens.foldl (fun text t => text ++ t.token.dump ++ " @ " ++ t.span.text ++ "\n") ""

/-- What is shown before a program runs. -/
def shown (a : Attempt) (showTree showProgram : Bool) : String :=
  (if showTree then a.tree.root.outline.render else "") ++
    (if showProgram then a.programText else "")

/-- Work on the text of a file. -/
def start (action : Action) (path text : String) (w : World) : Stage :=
  match action with
  | .run showTree showProgram =>
      let a := Attempt.bind [] 0 (.ofText text)
      match a.diagnostics with
      | [] =>
          .run (if showProgram then a.printed else a)
            { w with output := w.output ++ shown a showTree showProgram }
      | ds => .done (.refused ds)
  | .check =>
      match (Attempt.bind [] 0 (.ofText text)).diagnostics with
      | [] => .done (.succeeded ("✓ " ++ path ++ " checks successfully\n"))
      | ds => .done (.refused ds)
  | .tokens =>
      match Syntax.tokenize text with
      | .ok found => .done (.succeeded (tokenLines found))
      | .error e => .done (.failed e.text)
  | .parse =>
      match Syntax.parseText text with
      | .ok program => .done (.succeeded (program.json.pretty ++ "\n"))
      | .error e => .done (.failed e.text)

end Action

namespace Stage

/-- Begin to work on a file, if it can be read. -/
def ofFile (action : Action) (path : String) (contents : Except FileError String) (w : World) :
    Stage :=
  match contents with
  | .ok text => action.start path text w
  | .error e => .done (.failed e.message)

/-- Run the program, if there is one, for at most `fuel` steps. -/
def finish (fuel : Nat) : Stage → Option Report
  | .done r => some r
  | .run a w => (runProgram fuel a.lowered.program w).map Report.ofOutcome

end Stage

/-- Do what the arguments say, with at most `fuel` steps for each program. -/
def execute (fuel : Nat) (read : String → Except FileError String) (args : List String)
    (w : World) : Option Report :=
  match Command.ofArgs? args with
  | some (.file action path) => (Stage.ofFile action path (read path) w).finish fuel
  | some .prompt => (Prompt.start w).run fuel
  | some .version => some .version
  | none => some .misused

end ScriptLang.Shell
