/-
# ScriptLang.Scope -- which names are visible

A scope is the declarations of one block and of the blocks around it.  A
variable shadows those of the same name further out; a name can be declared once
in each block.  The overloads of a function are those of the nearest block that
declares its name.
-/
import ScriptLang.Symbol

namespace ScriptLang

set_option autoImplicit false

/-- The declarations of one block, in order. -/
structure Frame where
  vars : List Variable
  functions : List Function
deriving Inhabited

/-- A block's declarations, and those of the blocks around it, innermost first. -/
structure Scope where
  inner : Frame
  outer : List Frame
deriving Inhabited

namespace Frame

def empty : Frame := ⟨[], []⟩

def find? (f : Frame) (name : String) : Option Variable :=
  f.vars.find? (·.name = name)

def overloads (f : Frame) (name : String) : List Function :=
  f.functions.filter (·.name = name)

/-- Remove repetitions from a sorted list. -/
def distinct : List String → List String
  | [] => []
  | [x] => [x]
  | x :: y :: rest => if x = y then distinct (y :: rest) else x :: distinct (y :: rest)

/-- Variables in the order of declaration, then functions in alphabetical order. -/
def names (f : Frame) : List String :=
  f.vars.map (·.name) ++
    distinct ((f.functions.map (·.name)).mergeSort fun a b => decide (a ≤ b))

end Frame

namespace Scope

/-- A scope with no declarations and nothing around it. -/
def root : Scope := ⟨.empty, []⟩

def frames (s : Scope) : List Frame := s.inner :: s.outer

/-- Enter a block. -/
def push (s : Scope) : Scope := ⟨.empty, s.frames⟩

/-- Leave a block, unless nothing is around it. -/
def pop? (s : Scope) : Option Scope :=
  match s.outer with
  | [] => none
  | frame :: rest => some ⟨frame, rest⟩

def pop (s : Scope) : Scope := s.pop?.getD s

/-- Declare a variable, unless the block has one of that name. -/
def declare? (s : Scope) (v : Variable) : Option Scope :=
  if (s.inner.find? v.name).isSome then none
  else some { s with inner := { s.inner with vars := s.inner.vars ++ [v] } }

/-- Declare a function, unless the block has one of that signature. -/
def declareFunction? (s : Scope) (f : Function) : Option Scope :=
  if s.inner.functions.any (·.sameSignature f) then none
  else some { s with inner := { s.inner with functions := s.inner.functions ++ [f] } }

/-- The nearest variable of a name. -/
def find? (s : Scope) (name : String) : Option Variable :=
  s.frames.findSome? (·.find? name)

/-- The overloads in the nearest block that has any. -/
def overloads (s : Scope) (name : String) : List Function :=
  ((s.frames.map (·.overloads name)).find? (!·.isEmpty)).getD []

/-- The first overload of a name. -/
def function? (s : Scope) (name : String) : Option Function := (s.overloads name).head?

/-- The variables declared in the block itself, in order. -/
def declared (s : Scope) : List Variable := s.inner.vars

/-- Add the names that are not there yet. -/
def addNew : List String → List String → List String
  | names, [] => names
  | names, n :: rest => addNew (if n ∈ names then names else names ++ [n]) rest

/-- The names visible from the innermost of a list of blocks. -/
def visibleIn : List Frame → List String
  | [] => []
  | frame :: rest => addNew frame.names (visibleIn rest)

/-- All visible names, nearest first, as suggestions are looked for. -/
def visible (s : Scope) : List String := visibleIn s.frames

/-- The scope around all programs: the builtins. -/
def builtins : Scope :=
  Builtin.all.foldl (fun s b => (s.declareFunction? b.function).getD s) root

end Scope

end ScriptLang
