/-
# ScriptLang.Text.Spelling -- names that are spelled alike

The distance of two names is the least number of insertions, deletions and
substitutions of characters that turn one into the other.  It is computed row by
row: the row after a prefix of the first name holds, for every prefix of the
second, the distance of the two prefixes (`advance`).

A suggestion for an unknown name is the earliest visible name among the nearest,
if it is near enough for the length of the unknown name.
-/

namespace ScriptLang.Text

set_option autoImplicit false

/-- The cells of the next row after its first one.  `diagonal` is the old cell to
the left of `above`, and `left` the new one. -/
def advanceCells (a : Char) : Nat → Nat → List Char → List Nat → List Nat
  | _, _, [], _ => []
  | _, _, _ :: _, [] => []
  | diagonal, left, b :: bs, above :: row =>
      let substitute := diagonal + (if a = b then 0 else 1)
      let cell := min (min substitute (left + 1)) (above + 1)
      cell :: advanceCells a above cell bs row

/-- The row for a prefix one character `a` longer, against all prefixes of `bs`. -/
def advance (bs : List Char) (row : List Nat) (a : Char) : List Nat :=
  match row with
  | [] => []
  | first :: rest => (first + 1) :: advanceCells a first (first + 1) bs rest

/-- The row against all prefixes of `bs` after reading all of `as`. -/
def distanceRow (as bs : List Char) : List Nat :=
  as.foldl (advance bs) (List.range (bs.length + 1))

/-- Least number of single-character edits between two names. -/
def distance (a b : String) : Nat :=
  (distanceRow a.toList b.toList).getLastD 0

/-- Keep the nearer of two candidates; the earlier one wins a tie. -/
def nearer (best : Option (Nat × String)) (next : Nat × String) : Option (Nat × String) :=
  match best with
  | none => some next
  | some b => if next.1 < b.1 then some next else some b

/-- The nearest candidate other than the name itself within `limit` edits. -/
def closest (name : String) (candidates : List String) (limit : Nat) : Option String :=
  let measured := (candidates.filter (· ≠ name)).map fun c => (distance name c, c)
  ((measured.filter (·.1 ≤ limit)).foldl nearer none).map (·.2)

/-- How many edits are allowed: one for every three characters, rounded up, from one to three. -/
def tolerance (name : String) : Nat := max 1 (min 3 ((name.length + 2) / 3))

/-- A note that names a visible name spelled almost like an unknown one. -/
def suggest (name : String) (visible : List String) : Option String :=
  (closest name visible (tolerance name)).map fun found => "did you mean `" ++ found ++ "`?"

end ScriptLang.Text
