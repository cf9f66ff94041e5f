/-
# ScriptLang.Run.Machine -- running a flat program

The machine runs statements one after the other; a jump goes on after its label.
The result is the value of the last declaration or expression statement that was
run.  A run need not end, so it is given a number of steps: more steps never
change a result that is there.
-/
import ScriptLang.Run.Eval

namespace ScriptLang

set_option autoImplicit false

open ScriptLang.Bound (Stmt)

/-- A flat program with the places of its labels. -/
structure Image where
  code : Array Stmt
  /-- Where to go on after each label; of two labels alike the later one stands first. -/
  targets : List (Label × Nat)

namespace Image

/-- Add the labels of a program that starts at an index to those before it. -/
def collect (index : Nat) (found : List (Label × Nat)) : List Stmt → List (Label × Nat)
  | [] => found
  | .label here :: rest => collect (index + 1) ((here, index + 1) :: found) rest
  | _ :: rest => collect (index + 1) found rest

def load (program : List Stmt) : Image := ⟨program.toArray, collect 0 [] program⟩

theorem collect_append (index : Nat) (found : List (Label × Nat)) (xs ys : List Stmt) :
    collect index found (xs ++ ys) = collect (index + xs.length) (collect index found xs) ys := by
  induction xs generalizing index found with
  | nil => rfl
  | cons s ss ih =>
      have shift : index + 1 + ss.length = index + (ss.length + 1) := by omega
      cases s <;> rw [List.cons_append, collect, collect, ih, List.length_cons, shift] <;> simp

/-- Where a jump to a label goes on. -/
def target? (image : Image) (label : Label) : Option Nat :=
  (image.targets.find? (·.1 = label)).map (·.2)

end Image

/-- A run between two statements. -/
structure Machine where
  /-- The index of the next statement. -/
  pc : Nat
  /-- The value of the last declaration or expression statement. -/
  last : Value
  world : World

/-- What one step gives. -/
inductive Progress where
  | running (m : Machine)
  | stopped (result : Except Fault Value) (world : World)

namespace Machine

/-- A machine before the first statement. -/
def start (w : World) : Machine := ⟨0, .void, w⟩

/-- Go on after a label. -/
def jump (image : Image) (m : Machine) (label : Label) : Progress :=
  match image.target? label with
  | some index => .running { m with pc := index }
  | none => .stopped (.error (.undefinedLabel label)) m.world

/-- Go on with the next statement and a world. -/
def advance (m : Machine) (w : World) : Progress := .running { m with pc := m.pc + 1, world := w }

/-- Run a statement. -/
def execute (image : Image) (m : Machine) : Stmt → Progress
  | .declare v init =>
      match init.eval m.world with
      | (.ok value, w) =>
          .running ⟨m.pc + 1, value, { w with store := w.store.upsert v value }⟩
      | (.error f, w) => .stopped (.error f) w
  | .expr e =>
      match e.eval m.world with
      | (.ok value, w) => .running ⟨m.pc + 1, value, w⟩
      | (.error f, w) => .stopped (.error f) w
  | .goto target => m.jump image target
  | .branch target test when =>
      match test.eval m.world with
      | (.ok (.bool b), w) =>
          if b = when then jump image { m with world := w } target else m.advance w
      | (.ok value, w) => .stopped (.error (.expected .bool value.ty)) w
      | (.error f, w) => .stopped (.error f) w
  | .label _ => m.advance m.world
  | s => .stopped (.error (.unexpectedNode s.kind)) m.world

/-- Run one statement; at the end of the program the machine stops with the last value. -/
def step (image : Image) (m : Machine) : Progress :=
  match image.code[m.pc]? with
  | some s => m.execute image s
  | none => .stopped (.ok m.last) m.world

theorem step_of_code {image : Image} {m : Machine} {s : Stmt} (h : image.code[m.pc]? = some s) :
    m.step image = m.execute image s := by
  rw [step, h]

theorem step_goto {image : Image} {m : Machine} {target : Label} {index : Nat}
    (code : image.code[m.pc]? = some (.goto target)) (found : image.target? target = some index) :
    m.step image = .running { m with pc := index } := by
  rw [step_of_code code, execute, jump, found]

/-- Run a number of steps.  The answer is `none` if the machine has not stopped by then. -/
def run (image : Image) : Nat → Machine → Option (Outcome Value)
  | 0, _ => none
  | fuel + 1, m =>
      match m.step image with
      | .running m => run image fuel m
      | .stopped result w => some (result, w)

/-- More steps keep a result that is there. -/
theorem run_add {image : Image} {fuel : Nat} {m : Machine} {o : Outcome Value}
    (h : run image fuel m = some o) (more : Nat) : run image (fuel + more) m = some o := by
  induction fuel generalizing m with
  | zero => simp [run] at h
  | succ fuel ih =>
      rw [Nat.succ_add]
      rw [run] at h ⊢
      cases hs : m.step image with
      | running next =>
          rw [hs] at h
          exact ih h
      | stopped result w =>
          rw [hs] at h
          exact h

end Machine

/-- Run a flat program in a world for at most `fuel` steps. -/
def runProgram (fuel : Nat) (program : List Stmt) (w : World) : Option (Outcome Value) :=
  Machine.run (.load program) fuel (.start w)

end ScriptLang
