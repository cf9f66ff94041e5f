/-
# ScriptLang.Run.Store -- the values of variables

A store is the list of variables that have a value, in the order in which they
got their first one.  It is looked up by number; two variables may have the same
name, and the later one is found by it.
-/
import ScriptLang.Value

namespace ScriptLang

set_option autoImplicit false

/-- A variable and its value. -/
structure Slot where
  symbol : Variable
  value : Value
deriving Inhabited

/-- The variables that have a value, in order. -/
structure Store where
  slots : List Slot
deriving Inhabited

namespace Store

def empty : Store := ⟨[]⟩

def size (s : Store) : Nat := s.slots.length

def isEmpty (s : Store) : Bool := s.slots.isEmpty

/-- The value of the variable with a number. -/
def get? (s : Store) (id : Nat) : Option Value :=
  (s.slots.find? (·.symbol.id = id)).map (·.value)

def contains (s : Store) (id : Nat) : Bool := s.slots.any (·.symbol.id = id)

/-- Give a slot a value if it has a number. -/
def setSlot (id : Nat) (value : Value) (slot : Slot) : Slot :=
  if slot.symbol.id = id then { slot with value := value } else slot

/-- Change the value of a variable, if it has one. -/
def assign? (s : Store) (id : Nat) (value : Value) : Option Store :=
  if s.contains id then some ⟨s.slots.map (setSlot id value)⟩ else none

/-- Give a variable a value.  A variable that has one keeps its place, and stays the variable it was. -/
def upsert (s : Store) (v : Variable) (value : Value) : Store :=
  (s.assign? v.id value).getD ⟨s.slots ++ [⟨v, value⟩]⟩

/-- The latest slot of a name. -/
def lookup? (s : Store) (name : String) : Option Slot :=
  s.slots.reverse.find? (·.symbol.name = name)

/-- Keep only some slots. -/
def retain (s : Store) (keep : Slot → Bool) : Store := ⟨s.slots.filter keep⟩

end Store

end ScriptLang
