/-
# ScriptLang.Proofs.MachineRun -- steps of the machine, one after the other

`Machine.Reaches` counts the steps from one machine to another; a run from the
first is a run from the second with fewer steps (`run_of_reaches`), so a run has
one result (`run_unique`).

`Image.Holds` says that code stands at a place of the loaded program and that its
labels are found there.  A program whose labels are all different holds itself
(`holds_load`), and the parts of code are held if the code is (`holds_append`).  The
code of a branch or a loop has its jumps and labels at fixed places around the code
of its parts (`IfThenAt`, `IfElseAt`, `WhileAt`, `DoWhileAt`).
-/
import ScriptLang.Proofs.FlatCode
import ScriptLang.Proofs.Structured

namespace ScriptLang

set_option autoImplicit false

open ScriptLang.Bound (Stmt Expr Supply labelIds labelId? loopCode)

/-! ## Loaded programs -/

namespace Image

/-- Labels that were found first come last. -/
theorem collect_found (index : Nat) (found : List (Label × Nat)) (code : List Stmt) :
    collect index found code = collect index [] code ++ found := by
  induction code generalizing index found with
  | nil => rfl
  | cons s ss ih =>
      cases s with
      | label here =>
          rw [collect, collect, ih (index + 1) [(here, index + 1)], ih, List.append_assoc]
          rfl
      | _ =>
          rw [collect, collect, ih]
          all_goals simp

theorem mem_labelIds_of_collect {index : Nat} {code : List Stmt} {entry : Label × Nat}
    (h : entry ∈ collect index [] code) : entry.1.id ∈ labelIds code := by
  induction code generalizing index with
  | nil => cases h
  | cons s ss ih =>
      cases s with
      | label here =>
          rw [collect, collect_found, List.mem_append] at h
          simp only [labelIds, List.filterMap_cons, labelId?, List.mem_cons]
          rcases h with later | now
          · exact .inr (ih later)
          · rw [List.mem_singleton.1 now]
            exact .inl rfl
      | _ =>
          rw [collect] at h
          · simpa only [labelIds, List.filterMap_cons, labelId?] using ih h
          all_goals simp

/-- A jump to a label goes on after it, if no other label is the same. -/
theorem target?_load {before after : List Stmt} {here : Label}
    (unique : here.id ∉ labelIds after) :
    (load (before ++ .label here :: after)).target? here = some (before.length + 1) := by
  have later : (collect (before.length + 1) [] after).find? (·.1 = here) = none := by
    rw [List.find?_eq_none]
    intro entry member same
    have found := mem_labelIds_of_collect member
    rw [of_decide_eq_true same] at found
    exact unique found
  simp only [target?, load, collect_append, collect, Nat.zero_add]
  rw [collect_found, List.find?_append, later]
  simp

/-- Whether code stands at a place, and its labels are found there. -/
def Holds (image : Image) : Nat → List Stmt → Prop
  | _, [] => True
  | pos, s :: rest =>
      image.code[pos]? = some s ∧ (∀ here, s = .label here → image.target? here = some (pos + 1)) ∧
        image.Holds (pos + 1) rest

theorem holds_append {image : Image} {pos : Nat} {xs ys : List Stmt} :
    image.Holds pos (xs ++ ys) ↔ image.Holds pos xs ∧ image.Holds (pos + xs.length) ys := by
  induction xs generalizing pos with
  | nil => simp [Holds]
  | cons s ss ih =>
      have shift : pos + 1 + ss.length = pos + (ss.length + 1) := by omega
      simp only [List.cons_append, Holds, ih, List.length_cons, shift, and_assoc]

theorem holds_load_from {before after : List Stmt} (nodup : (labelIds (before ++ after)).Nodup) :
    (load (before ++ after)).Holds before.length after := by
  induction after generalizing before with
  | nil => trivial
  | cons s rest ih =>
      refine ⟨by simp [load], ?_, ?_⟩
      · rintro here rfl
        refine target?_load fun again => ?_
        rw [labelIds, List.filterMap_append, List.nodup_append] at nodup
        have apart := nodup.2.1
        simp only [List.filterMap_cons, labelId?, List.nodup_cons] at apart
        exact apart.1 again
      · have moved : before ++ s :: rest = (before ++ [s]) ++ rest := by simp
        rw [moved] at nodup ⊢
        simpa using ih nodup

/-- A program whose labels are all different is held from its start. -/
theorem holds_load {program : List Stmt} (nodup : (labelIds program).Nodup) :
    (load program).Holds 0 program :=
  @holds_load_from [] program nodup

/-! ### The parts of branches and loops -/

/-- Where the parts of an `if` without an `else` stand. -/
structure IfThenAt (image : Image) (pos exit label : Nat) (test : Expr) (inner : List Stmt) : Prop where
  branch : image.code[pos]? = some (.branch ⟨label⟩ test false)
  yes : image.Holds (pos + 1) inner
  done : image.code[pos + 1 + inner.length]? = some (.label ⟨label⟩)
  toDone : image.target? ⟨label⟩ = some exit
  exit_eq : exit = pos + 1 + inner.length + 1

/-- Where the parts of an `if` with an `else` stand. -/
structure IfElseAt (image : Image) (pos exit label : Nat) (test : Expr) (first second : List Stmt) :
    Prop where
  branch : image.code[pos]? = some (.branch ⟨label⟩ test false)
  yes : image.Holds (pos + 1) first
  skip : image.code[pos + 1 + first.length]? = some (.goto ⟨label + 1⟩)
  toNo : image.target? ⟨label⟩ = some (pos + 1 + first.length + 1 + 1)
  no : image.Holds (pos + 1 + first.length + 1 + 1) second
  done : image.code[pos + 1 + first.length + 1 + 1 + second.length]? = some (.label ⟨label + 1⟩)
  toDone : image.target? ⟨label + 1⟩ = some exit
  exit_eq : exit = pos + 1 + first.length + 1 + 1 + second.length + 1

/-- Where the parts of a loop that tests before each round stand. -/
structure WhileAt (image : Image) (pos exit label : Nat) (test : Expr) (inner : List Stmt) : Prop where
  enter : image.code[pos]? = some (.goto ⟨label + 1⟩)
  toBody : image.target? ⟨label⟩ = some (pos + 2)
  body : image.Holds (pos + 2) inner
  check : image.code[pos + 2 + inner.length]? = some (.label ⟨label + 1⟩)
  toBranch : image.target? ⟨label + 1⟩ = some (pos + 2 + inner.length + 1)
  branch : image.code[pos + 2 + inner.length + 1]? = some (.branch ⟨label⟩ test true)
  done : image.code[pos + 2 + inner.length + 1 + 1]? = some (.label ⟨label + 2⟩)
  exit_eq : exit = pos + 2 + inner.length + 1 + 1 + 1

/-- Where the parts of a loop that tests after each round stand. -/
structure DoWhileAt (image : Image) (pos exit label : Nat) (test : Expr) (inner : List Stmt) :
    Prop where
  enter : image.code[pos]? = some (.label ⟨label⟩)
  toBody : image.target? ⟨label⟩ = some (pos + 1)
  body : image.Holds (pos + 1) inner
  branch : image.code[pos + 1 + inner.length]? = some (.branch ⟨label⟩ test true)
  exit_eq : exit = pos + 1 + inner.length + 1

namespace Holds

variable {image : Image} {pos : Nat} {test : Expr} {supply : Supply}

theorem ifThenAt {yes : Stmt} (here : image.Holds pos ((Stmt.ifThen test yes).code supply)) :
    image.IfThenAt pos (pos + ((Stmt.ifThen test yes).code supply).length)
      (yes.supplyAfter supply).label test (yes.code supply) := by
  rw [Bound.code_ifThen] at here ⊢
  obtain ⟨branch, -, rest⟩ := here
  obtain ⟨inner, done, toDone, -⟩ := holds_append.1 rest
  have regroup : ∀ n, pos + (n + 1 + 1) = pos + 1 + n + 1 := by omega
  rw [List.length_cons, List.length_append, List.length_singleton, regroup]
  exact ⟨branch, inner, done, toDone _ rfl, rfl⟩

theorem ifElseAt {yes no : Stmt} (here : image.Holds pos ((Stmt.ifElse test yes no).code supply)) :
    image.IfElseAt pos (pos + ((Stmt.ifElse test yes no).code supply).length)
      (no.supplyAfter (yes.supplyAfter supply)).label test (yes.code supply)
      (no.code (yes.supplyAfter supply)) := by
  rw [Bound.code_ifElse] at here ⊢
  obtain ⟨branch, -, rest⟩ := here
  obtain ⟨first, skip, -, -, toNo, rest⟩ := holds_append.1 rest
  obtain ⟨second, done, toDone, -⟩ := holds_append.1 rest
  have regroup : ∀ n k, pos + (n + (k + 1 + 1 + 1) + 1) = pos + 1 + n + 1 + 1 + k + 1 := by omega
  simp only [List.length_cons, List.length_append, List.length_nil, Nat.zero_add, regroup]
  exact ⟨branch, first, skip, toNo _ rfl, second, done, toDone _ rfl, rfl⟩

theorem whileAt {label : Nat} {inner : List Stmt} (here : image.Holds pos (loopCode label test inner)) :
    image.WhileAt pos (pos + (loopCode label test inner).length) label test inner := by
  obtain ⟨enter, -, -, toBody, rest⟩ := here
  obtain ⟨body, check, toBranch, branch, -, done, -⟩ := holds_append.1 rest
  have regroup : ∀ n, pos + (n + (1 + 1 + 1) + 1 + 1) = pos + 2 + n + 1 + 1 + 1 := by omega
  simp only [loopCode, List.length_cons, List.length_append, List.length_nil, Nat.zero_add, regroup]
  exact ⟨enter, toBody _ rfl, body, check, toBranch _ rfl, branch, done, rfl⟩

theorem doWhileAt {body : Stmt} (here : image.Holds pos ((Stmt.doWhile body test).code supply)) :
    image.DoWhileAt pos (pos + ((Stmt.doWhile body test).code supply).length)
      (body.supplyAfter supply).label test (body.code supply) := by
  rw [Bound.code_doWhile] at here ⊢
  obtain ⟨enter, toBody, rest⟩ := here
  obtain ⟨inner, branch, -, -⟩ := holds_append.1 rest
  have regroup : ∀ n, pos + (n + 1 + 1) = pos + 1 + n + 1 := by omega
  rw [List.length_cons, List.length_append, List.length_singleton, regroup]
  exact ⟨enter, toBody _ rfl, inner, branch, rfl⟩

end Holds

end Image

/-! ## Runs -/

/-- The world after one step. -/
def Progress.world : Progress → World
  | .running m => m.world
  | .stopped _ w => w

namespace Machine

/-- Whether a number of steps leads from one machine to another. -/
inductive Reaches (image : Image) : Nat → Machine → Machine → Prop where
  | here (m : Machine) : Reaches image 0 m m
  | step {n : Nat} {m next last : Machine} (first : m.step image = .running next)
      (rest : Reaches image n next last) : Reaches image (n + 1) m last

variable {image : Image}

theorem Reaches.trans {n k : Nat} {m m' m'' : Machine} (first : Reaches image n m m')
    (second : Reaches image k m' m'') : Reaches image (n + k) m m'' := by
  induction first with
  | here m => simpa using second
  | step start _ ih =>
      rw [Nat.add_right_comm]
      exact .step start (ih second)

theorem Reaches.one {m m' : Machine} (h : m.step image = .running m') : Reaches image 1 m m' :=
  .step h (.here m')

theorem run_of_reaches {n : Nat} {m m' : Machine} (h : Reaches image n m m') (fuel : Nat) :
    run image (n + fuel) m = run image fuel m' := by
  induction h with
  | here m => rw [Nat.zero_add]
  | step first _ ih => rw [Nat.succ_add, run, first]; exact ih

theorem run_eq_none_of_le {n k : Nat} {m : Machine} (h : run image n m = none) (le : k ≤ n) :
    run image k m = none := by
  cases hr : run image k m with
  | none => rfl
  | some o =>
      have more := run_add hr (n - k)
      rw [show k + (n - k) = n by omega, h] at more
      cases more

/-- A run has one result. -/
theorem run_unique {n k : Nat} {m : Machine} {o p : Outcome Value}
    (first : run image n m = some o) (second : run image k m = some p) : o = p := by
  have one := run_add first k
  rw [Nat.add_comm, run_add second n] at one
  exact (Option.some.inj one).symm

/-- A run that ends comes to a machine that stops. -/
theorem exists_stop {fuel : Nat} {m : Machine} {o : Outcome Value} (ended : m.run image fuel = some o) :
    ∃ n m', Reaches image n m m' ∧ m'.step image = .stopped o.1 o.2 := by
  induction fuel generalizing m with
  | zero => cases ended
  | succ fuel ih =>
      rw [run] at ended
      cases first : m.step image with
      | running next =>
          rw [first] at ended
          obtain ⟨n, m', reach, stops⟩ := ih ended
          exact ⟨n + 1, m', .step first reach, stops⟩
      | stopped result w =>
          rw [first] at ended
          cases ended
          exact ⟨0, m, .here m, first⟩

/-! ## One step -/

/-- A machine that runs a declaration or an expression statement, which gives an outcome. -/
def settled (m : Machine) : Outcome Value → Progress
  | (.ok value, w) => .running ⟨m.pc + 1, value, w⟩
  | (.error f, w) => .stopped (.error f) w

theorem settled_world (m : Machine) (o : Outcome Value) : (m.settled o).world = o.2 := by
  match o with
  | (.ok x, w) => rfl
  | (.error f, w) => rfl

theorem execute_declare (m : Machine) (v : Variable) (init : Expr) :
    m.execute image (.declare v init) = m.settled (init.declareAs v m.world) := by
  rw [execute, Expr.declareAs]
  obtain ⟨result, w⟩ := init.eval m.world
  cases result <;> rfl

theorem execute_expr (m : Machine) (e : Expr) :
    m.execute image (.expr e) = m.settled (e.eval m.world) := by
  rw [execute]
  obtain ⟨result, w⟩ := e.eval m.world
  cases result <;> rfl

/-- A machine that branches on a test to a place. -/
def branched (m : Machine) (index : Nat) (when : Bool) : Outcome Bool → Progress
  | (.ok b, w) => .running ⟨if b = when then index else m.pc + 1, m.last, w⟩
  | (.error f, w) => .stopped (.error f) w

theorem execute_branch (m : Machine) {target : Label} {index : Nat}
    (found : image.target? target = some index) (test : Expr) (when : Bool) :
    m.execute image (.branch target test when) = m.branched index when (test.test m.world) := by
  rw [execute, Expr.test]
  obtain ⟨result, w⟩ := test.eval m.world
  cases result with
  | error f => rfl
  | ok value =>
      cases value with
      | bool b =>
          show (if b = when then jump image { m with world := w } target else m.advance w) = _
          simp only [jump, found, advance, branched, Outcome.andThen]
          split <;> rfl
      | _ => rfl

theorem execute_branch_world (m : Machine) (image : Image) (target : Label) (test : Expr)
    (when : Bool) :
    (m.execute image (.branch target test when)).world = (test.eval m.world).2 := by
  rw [execute]
  obtain ⟨result, w⟩ := test.eval m.world
  cases result with
  | error f => rfl
  | ok value =>
      cases value with
      | bool b =>
          simp only [jump]
          split
          · split <;> rfl
          · rfl
      | _ => rfl

theorem step_label {m : Machine} {here : Label}
    (code : image.code[m.pc]? = some (.label here)) :
    m.step image = .running { m with pc := m.pc + 1 } := by
  rw [step_of_code code, execute, advance]

end Machine

end ScriptLang
