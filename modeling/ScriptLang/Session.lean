/-
# ScriptLang.Session -- programs submitted one after the other

A session keeps the submissions that joined it, newest first, and a world in
which they run.  A submission sees the top-level variables of those before it.
It is refused if it has diagnostics; otherwise it is lowered and run, and after
the run, however it ended, the store keeps only top-level variables.

Numbers of variables are counted along the chain.  A session whose chain is
empty counts from zero, so what a submission took is given back if it does not
join an empty chain.
-/
import ScriptLang.Bound.Bind
import ScriptLang.Bound.Outline
import ScriptLang.Flat.Lower
import ScriptLang.Run.Machine
import ScriptLang.Syntax.Parse

namespace ScriptLang

set_option autoImplicit false

open ScriptLang.Bound (Submission Lowered)

/-- A submission that was bound after a chain of earlier ones. -/
structure Attempt where
  tree : Syntax.Tree
  /-- The submissions before it, newest first. -/
  earlier : List Submission
  submission : Submission
  /-- The next free number of a variable. -/
  nextId : Nat
deriving Inhabited

namespace Attempt

/-- Bind a tree after a chain. -/
def bind (earlier : List Submission) (nextId : Nat) (tree : Syntax.Tree) : Attempt :=
  let bound := Bound.bindProgram earlier nextId tree.source tree.root
  ⟨tree, earlier, bound.1, bound.2⟩

/-- The problems of the text, then those of its meaning. -/
def diagnostics (a : Attempt) : List Diagnostic := a.tree.diagnostics ++ a.submission.diagnostics

/-- The chain with the submission in it. -/
def chain (a : Attempt) : List Submission := a.submission :: a.earlier

/-- The flat program. -/
def lowered (a : Attempt) : Lowered := Bound.lower a.submission.statement a.nextId

/-- The outline of the flat program. -/
def programText (a : Attempt) : String := (Bound.programOutline a.lowered.program).render

/-- The attempt after its flat program was printed: that program took numbers for its hidden
variables, and the next one takes new ones. -/
def printed (a : Attempt) : Attempt := { a with nextId := a.lowered.nextId }

end Attempt

/-- The top-level variables of a chain, oldest submission first. -/
def chainVariables (chain : List Submission) : List Variable :=
  chain.reverse.flatMap Submission.vars

/-- Drop the slots of variables that are not among the top-level ones. -/
def Store.prune (s : Store) (chain : List Submission) : Store :=
  s.retain fun slot => (chainVariables chain).any (·.id = slot.symbol.id)

/-- The answer to a submission. -/
inductive Reply where
  | refused (diagnostics : List Diagnostic)
  | value (v : Value)
  | fault (f : Fault)
deriving Inhabited

namespace Reply

def ofResult : Except Fault Value → Reply
  | .ok v => .value v
  | .error f => .fault f

/-- Whether a value came out. -/
def isValue : Reply → Bool
  | .value _ => true
  | _ => false

end Reply

/-- The submissions that joined, and the world they run in. -/
structure Session where
  /-- Newest first. -/
  chain : List Submission
  /-- The next free number of a variable; zero if the chain is empty. -/
  nextId : Nat
  world : World

namespace Session

/-- A session before the first submission. -/
def start (w : World) : Session := ⟨[], 0, w⟩

/-- Forget the submissions and the values of their variables. -/
def reset (s : Session) : Session := .start { s.world with store := .empty }

/-- The same session with other streams: bytes to read, nothing written yet, and whether writing
fails. -/
def connect (s : Session) (input : List UInt8) (closed : Bool) : Session :=
  let sink := if closed then .closed else .ready
  { s with world := { s.world with input := input, output := "", sink := sink } }

/-- Bind a tree after the submissions of the session. -/
def attempt (s : Session) (tree : Syntax.Tree) : Attempt := .bind s.chain s.nextId tree

/-- Go on without a submission that took the numbers below `nextId`. -/
def abandon (s : Session) (nextId : Nat) : Session :=
  if s.chain.isEmpty then s else { s with nextId := nextId }

/-- Go on with a submission that took the numbers below `nextId`. -/
def join (s : Session) (a : Attempt) (nextId : Nat) : Session :=
  { s with chain := a.chain, nextId := nextId }

/-- When a submission joins the chain. -/
abbrev Policy := Reply → Bool

/-- Go on after a reply to a submission that took the numbers below `nextId`. -/
def settle (s : Session) (policy : Policy) (a : Attempt) (nextId : Nat) (reply : Reply) :
    Reply × Session :=
  (reply, if policy reply then s.join a nextId else s.abandon nextId)

/-- Go on after the program of a submission stopped. -/
def finish (s : Session) (policy : Policy) (a : Attempt) (o : Outcome Value) : Reply × Session :=
  let world := { o.2 with store := o.2.store.prune a.chain }
  settle { s with world := world } policy a a.lowered.nextId (.ofResult o.1)

/-- Refuse a submission, or run it for at most `fuel` steps.  The answer is `none` if it has not
stopped by then. -/
def evaluate (fuel : Nat) (policy : Policy) (s : Session) (tree : Syntax.Tree) :
    Option (Reply × Session) :=
  let a := s.attempt tree
  match a.diagnostics with
  | [] => (runProgram fuel a.lowered.program s.world).map (s.finish policy a)
  | ds => some (s.settle policy a a.nextId (.refused ds))

/-- Submit a program, which joins the chain if a value comes out. -/
def submit (fuel : Nat) (s : Session) (tree : Syntax.Tree) : Option (Reply × Session) :=
  s.evaluate fuel Reply.isValue tree

/-- Submit a program, which joins the chain whatever the answer is. -/
def force (fuel : Nat) (s : Session) (tree : Syntax.Tree) : Option (Reply × Session) :=
  s.evaluate fuel (fun _ => true) tree

/-- Let a program join the chain without running it. -/
def declare (s : Session) (tree : Syntax.Tree) : Attempt × Session :=
  let a := s.attempt tree
  (a, s.join a a.nextId)

/-- The flat program of a tree, which does not join the chain. -/
def preview (s : Session) (tree : Syntax.Tree) : Attempt × Session :=
  let a := s.attempt tree
  (a, s.abandon a.lowered.nextId)

/-- The top-level variables, oldest first, with their values. -/
def vars (s : Session) : List (Variable × Option Value) :=
  (chainVariables s.chain).map fun v => (v, s.world.store.get? v.id)

end Session

end ScriptLang
