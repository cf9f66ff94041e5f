/-
# ScriptLang.Shell.Directive -- the commands of the prompt

A line that starts with `#` is a command of the prompt and not a program.
-/
import ScriptLang.Text.Blank

namespace ScriptLang.Shell

set_option autoImplicit false

/-- A command of the prompt. -/
inductive Directive where
  | showTree | showProgram | clear | reset | vars | help | quit
  | unknown (line : String)
deriving DecidableEq, Inhabited

namespace Directive

/-- The commands by name; one has two names. -/
def table : List (String × Directive) :=
  [("showtree", .showTree), ("showprogram", .showProgram), ("cls", .clear), ("reset", .reset),
   ("vars", .vars), ("help", .help), ("quit", .quit), ("exit", .quit)]

/-- The command of a name. -/
def ofName? (name : String) : Option Directive := (table.find? (·.1 = name)).map (·.2)

/-- The command on a line, if it starts with `#`.  White space around it does not matter; upper
and lower case do. -/
def ofLine? (line : String) : Option Directive :=
  match Text.trimChars line.toList with
  | '#' :: name => some ((ofName? (String.ofList name)).getD (.unknown (Text.trim line)))
  | _ => none

/-- What `#help` shows. -/
def helpText : String :=
  "Stonylang REPL Commands:\n" ++
  "  #help           Show this help\n" ++
  "  #quit           Exit the REPL\n" ++
  "  #cls            Clear the screen\n" ++
  "  #reset          Forget all variables\n" ++
  "  #vars           List declared variables\n" ++
  "  #showtree       Toggle parse tree output\n" ++
  "  #showprogram    Toggle lowered program output\n" ++
  "\n" ++
  "An unfinished statement continues on the next line; an empty line submits it.\n" ++
  "\n" ++
  "Built-in functions:\n" ++
  "  print(x)        Print value without newline\n" ++
  "  println(x)      Print value with newline\n" ++
  "  input()         Read one line\n" ++
  "  stringify(x)    Value as a string\n" ++
  "  random(n)       Random int in [0, n) or float in [0, n)\n"

end Directive

end ScriptLang.Shell
