/-
# ScriptLang.Shell.Notice -- what is reported beside the output

Diagnostics, faults and failures are reported on a stream of their own.
-/
import ScriptLang.Diagnostic
import ScriptLang.Run.Fault

namespace ScriptLang.Shell

set_option autoImplicit false

/-- Something reported beside the output. -/
inductive Notice where
  | diagnostic (d : Diagnostic)
  /-- A submission stopped early; more can be submitted. -/
  | fault (f : Fault)
  /-- The whole command failed. -/
  | failure (reason : String)
  /-- The arguments name no command. -/
  | usage
deriving Inhabited

def Notice.text : Notice → String
  | .diagnostic d => d.text
  | .fault f => f.text
  | .failure reason => "Error: " ++ reason
  | .usage => "usage: run [--show-tree] [--show-program] FILE | check FILE | tokens FILE | parse FILE | repl"

/-- How a command ended. -/
structure Report where
  exitCode : Nat
  output : String
  notices : List Notice
deriving Inhabited

/-- Why a file could not be read. -/
inductive FileError where
  | missing
  | undecodable
  | other (reason : String)
deriving Inhabited

def FileError.message : FileError → String
  | .missing => "No such file or directory (os error 2)"
  | .undecodable => "stream did not contain valid UTF-8"
  | .other reason => reason

end ScriptLang.Shell
