/-
# ScriptLang.Proofs.History -- what a place in a program has before it

A place in a program is known by its history: the blocks that were entered and
left and the names that were declared before it, newest first.  Nothing is kept
of it but the text, so that it can be said without a scope which declaration a
name means there: going back, past the blocks that are closed, it is the first
one of that name that was accepted (`nearest?`).

A block that is closed cannot be seen from outside (`Closed`, `closed_block`),
and the same holds of all statements but declarations (`closed_stmt`).
-/
import ScriptLang.Proofs.Suppressing

namespace ScriptLang.Syntax

set_option autoImplicit false

/-- What happens on the way through a program. -/
inductive Event where
  | enter
  | leave
  | declare (name : Name)

/-- The events before a place, newest first. -/
abbrev History := List Event

namespace History

/-- How many names were declared; refused and missing ones count. -/
def count : History → Nat
  | [] => 0
  | .declare _ :: h => count h + 1
  | _ :: h => count h

/-- Whether a declaration is accepted after others in its block: its name is there, is not that of a
function, and is new. -/
def admits (block : List (Nat × Name)) (name : Name) : Bool :=
  !name.isMissing && !Builtin.all.any (·.name = name.text) && block.all (·.2.text ≠ name.text)

/-- The accepted declarations of the innermost block that is open, with their numbers.  So many
blocks further back are skipped as `closed` says. -/
def block : (closed : Nat) → History → List (Nat × Name)
  | _, [] => []
  | closed, .leave :: h => block (closed + 1) h
  | 0, .enter :: _ => []
  | closed + 1, .enter :: h => block closed h
  | closed + 1, .declare _ :: h => block (closed + 1) h
  | 0, .declare name :: h =>
      if admits (block 0 h) name then block 0 h ++ [(count h, name)] else block 0 h

/-- The number of the declaration that a name means: going back, past the blocks that are closed,
the first that was accepted. -/
def nearest? (text : String) : (closed : Nat) → History → Option Nat
  | _, [] => none
  | closed, .leave :: h => nearest? text (closed + 1) h
  | closed, .enter :: h => nearest? text (closed - 1) h
  | closed + 1, .declare _ :: h => nearest? text (closed + 1) h
  | 0, .declare name :: h =>
      if name.text = text && admits (block 0 h) name then some (count h) else nearest? text 0 h

/-- The history in front of the innermost block that is open. -/
def outside : (closed : Nat) → History → History
  | _, [] => []
  | closed, .leave :: h => outside (closed + 1) h
  | 0, .enter :: h => h
  | closed + 1, .enter :: h => outside closed h
  | closed, .declare _ :: h => outside closed h

/-- The nearest declaration is that of the innermost block, which has one at most of each name, and
otherwise the nearest one outside of it. -/
theorem nearest?_eq (text : String) (closed : Nat) (h : History) :
    nearest? text closed h =
      (((block closed h).find? (·.2.text = text)).map (·.1)).or (nearest? text 0 (outside closed h)) := by
  induction h generalizing closed with
  | nil => simp [nearest?, block, outside]
  | cons event h ih =>
      cases event with
      | leave => simpa [nearest?, block, outside] using ih (closed + 1)
      | enter =>
          cases closed with
          | zero => simp [nearest?, block, outside]
          | succ closed => simpa [nearest?, block, outside] using ih closed
      | declare name =>
          cases closed with
          | succ closed => simpa [nearest?, block, outside] using ih (closed + 1)
          | zero =>
              rw [nearest?, block, outside]
              cases accepted : admits (block 0 h) name with
              | false => simpa using ih 0
              | true =>
                  have new : ∀ d ∈ block 0 h, d.2.text ≠ name.text := by
                    simp only [admits, Bool.and_eq_true, List.all_eq_true, decide_eq_true_eq] at accepted
                    exact fun d member => accepted.2 d member
                  by_cases same : name.text = text
                  · have none : (block 0 h).find? (·.2.text = text) = none := by
                      rw [List.find?_eq_none]
                      intro d member
                      simpa [← same] using new d member
                    simp [same, none]
                  · simp [same, ih 0]

end History

open History

mutual

/-- The history after a statement. -/
def Stmt.past : Stmt → History → History
  | .block body, h => body.past h
  | .var _ name _ _ _, h => .declare name :: h
  | .ifThen _ _ yes, h => yes.past h
  | .ifElse _ _ yes no, h => no.past (yes.past h)
  | .whileLoop _ _ body, h => body.past h
  | .doWhile _ body _, h => body.past h
  -- the variable of a loop is in a block of its own around the body
  | .forTo _ var _ _ _ body, h => .leave :: body.past (.declare var :: .enter :: h)
  | .expr _, h => h

def Block.past : Block → History → History
  | .mk _ statements, h => .leave :: Stmt.pastAll statements (.enter :: h)

def Stmt.pastAll : List Stmt → History → History
  | [], h => h
  | s :: ss, h => Stmt.pastAll ss (s.past h)

end

/-- The names that are looked up in an expression and mean nothing, in order. -/
def Expr.unseen (e : Expr) (h : History) : List Name :=
  e.uses.filter fun n => !n.isMissing && (nearest? n.text 0 h).isNone

mutual

/-- The names that are looked up in a statement and mean nothing, in order. -/
def Stmt.unseen : Stmt → History → List Name
  | .block body, h => body.unseen h
  | .var _ _ _ _ init, h => init.unseen h
  | .ifThen _ test yes, h => test.unseen h ++ yes.unseen h
  | .ifElse _ test yes no, h => test.unseen h ++ yes.unseen h ++ no.unseen (yes.past h)
  | .whileLoop _ none body, h => body.unseen h
  | .whileLoop _ (some test) body, h => test.unseen h ++ body.unseen h
  | .doWhile _ body test, h => body.unseen h ++ test.unseen (body.past h)
  | .forTo _ var _ lower upper body, h =>
      lower.unseen h ++ upper.unseen h ++ body.unseen (.declare var :: .enter :: h)
  | .expr e, h => e.unseen h

def Block.unseen : Block → History → List Name
  | .mk _ statements, h => Stmt.unseenAll statements (.enter :: h)

def Stmt.unseenAll : List Stmt → History → List Name
  | [], _ => []
  | s :: ss, h => s.unseen h ++ Stmt.unseenAll ss (s.past h)

end

theorem Block.past_eq (body : Block) (h : History) :
    body.past h = .leave :: Stmt.pastAll body.statements (.enter :: h) := by
  cases body
  rw [Block.past]
  rfl

theorem Block.unseen_eq (body : Block) (h : History) :
    body.unseen h = Stmt.unseenAll body.statements (.enter :: h) := by
  cases body
  rw [Block.unseen]
  rfl

/-! ## Closed blocks -/

namespace History

/-- The number of the declaration that a name means is one of a declaration before it. -/
theorem nearest?_lt {text : String} {closed k : Nat} {h : History}
    (found : nearest? text closed h = some k) : k < count h := by
  induction h generalizing closed with
  | nil => simp [nearest?] at found
  | cons event h ih =>
      cases event with
      | enter => simpa [count] using ih (by simpa [nearest?] using found)
      | leave => simpa [count] using ih (by simpa [nearest?] using found)
      | declare name =>
          rw [count]
          cases closed with
          | succ closed =>
              have := ih (by simpa [nearest?] using found)
              omega
          | zero =>
              rw [nearest?] at found
              split at found
              · cases found
                exact Nat.lt_succ_self _
              · have := ih found
                omega

/-- Whether what was added to a history cannot be seen after it when so many blocks are skipped. -/
structure Closed (closed : Nat) (h h' : History) : Prop where
  nearest : ∀ text, nearest? text closed h' = nearest? text closed h
  block : block closed h' = block closed h
  outside : outside closed h' = outside closed h

theorem Closed.refl (closed : Nat) (h : History) : Closed closed h h := ⟨fun _ => rfl, rfl, rfl⟩

theorem Closed.trans {closed : Nat} {h h' h'' : History} (first : Closed closed h h')
    (second : Closed closed h' h'') : Closed closed h h'' :=
  ⟨fun text => (second.nearest text).trans (first.nearest text), second.block.trans first.block,
    second.outside.trans first.outside⟩

/-- What is done inside of a block is hidden when the block is left. -/
theorem Closed.leave {closed : Nat} {h h' : History}
    (inside : Closed (closed + 1) (.enter :: h) h') : Closed closed h (.leave :: h') where
  nearest text := by simpa [nearest?] using inside.nearest text
  block := by simpa [History.block] using inside.block
  outside := by simpa [History.outside] using inside.outside

theorem Closed.declare (closed : Nat) (name : Name) (h : History) :
    Closed (closed + 1) h (.declare name :: h) := ⟨fun _ => rfl, rfl, rfl⟩

end History

open History

theorem closed_all {body : List Stmt}
    (each : ∀ s ∈ body, ∀ closed h, Closed (closed + 1) h (s.past h)) (closed : Nat) (h : History) :
    Closed (closed + 1) h (Stmt.pastAll body h) := by
  induction body generalizing h with
  | nil => exact .refl _ _
  | cons s ss ih =>
      rw [List.forall_mem_cons] at each
      exact (each.1 closed h).trans (ih each.2 _)

theorem Block.closed_of {body : Block}
    (each : ∀ s ∈ body.statements, ∀ closed h, Closed (closed + 1) h (s.past h)) (closed : Nat)
    (h : History) : Closed closed h (body.past h) := by
  rw [Block.past_eq]
  exact (closed_all each closed _).leave

/-- Inside of a closed block nothing of a statement can be seen. -/
theorem Stmt.closed_past (s : Stmt) (closed : Nat) (h : History) :
    Closed (closed + 1) h (s.past h) := by
  induction s using Stmt.induction generalizing closed h with
  | block body ih =>
      rw [Stmt.past]
      exact Block.closed_of ih _ h
  | var span name mutable ty init =>
      rw [Stmt.past]
      exact .declare closed name h
  | ifThen span test yes ih =>
      rw [Stmt.past]
      exact Block.closed_of ih _ h
  | ifElse span test yes no ihYes ihNo =>
      rw [Stmt.past]
      exact (Block.closed_of ihYes _ h).trans (Block.closed_of ihNo _ _)
  | whileLoop span test body ih =>
      rw [Stmt.past]
      exact Block.closed_of ih _ h
  | doWhile span body test ih =>
      rw [Stmt.past]
      exact Block.closed_of ih _ h
  | forTo span var mutable lower upper body ih =>
      rw [Stmt.past]
      exact ((Closed.declare _ var _).trans (Block.closed_of ih _ _)).leave
  | expr e =>
      rw [Stmt.past]
      exact .refl _ h

theorem closed_block (body : Block) (h : History) : Closed 0 h (body.past h) :=
  Block.closed_of (fun s _ => s.closed_past) 0 h

/-- After a statement that is not a declaration, names mean what they meant before. -/
theorem closed_stmt {s : Stmt}
    (other : ∀ span name mutable ty init, s ≠ .var span name mutable ty init) (h : History) :
    Closed 0 h (s.past h) := by
  cases s with
  | block body => rw [Stmt.past]; exact closed_block body h
  | var span name mutable ty init => exact absurd rfl (other span name mutable ty init)
  | ifThen span test yes => rw [Stmt.past]; exact closed_block yes h
  | ifElse span test yes no =>
      rw [Stmt.past]
      exact (closed_block yes h).trans (closed_block no _)
  | whileLoop span test body => rw [Stmt.past]; exact closed_block body h
  | doWhile span body test => rw [Stmt.past]; exact closed_block body h
  | forTo span var mutable lower upper body =>
      rw [Stmt.past]
      exact ((Closed.declare 0 var _).trans (Block.closed_of (fun s _ => s.closed_past) _ _)).leave
  | expr e => rw [Stmt.past]; exact .refl _ h

/-- The block that statements are in stays the innermost one after them. -/
theorem outside_pastAll (body : List Stmt) (h : History) :
    outside 0 (Stmt.pastAll body h) = outside 0 h := by
  induction body generalizing h with
  | nil => rfl
  | cons s ss ih =>
      rw [Stmt.pastAll, ih]
      by_cases declares : ∃ span name mutable ty init, s = .var span name mutable ty init
      · obtain ⟨span, name, mutable, ty, init, rfl⟩ := declares
        rw [Stmt.past]
        rfl
      · refine (closed_stmt (fun span name mutable ty init same => declares ?_) h).outside
        exact ⟨span, name, mutable, ty, init, same⟩

end ScriptLang.Syntax
