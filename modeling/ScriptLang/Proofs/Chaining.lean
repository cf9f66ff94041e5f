/-
# ScriptLang.Proofs.Chaining -- a chain of submissions means what one program means

A program can be cut in two and submitted in two parts.  The second part is bound
in a scope that has the variables of the first one block further out, and takes
other numbers, because the loops of the first part took some for hidden variables
when it was run; so it is bound to the same statements under moved numbers
(`bindStmts_after`).  It runs in a store without the local variables of the first
part, and writes where that stopped; so it does what it does in the middle of the
program (`Cut.later_seen`), and stops if and only if the program does
(`Cut.whole_of_second`, `Cut.second_of_whole`).

Only the last value can tell the two apart: a part that runs no declaration and
no expression statement gives none of its own (`Machine.run_last`).
-/
import ScriptLang.Proofs.Listing
import ScriptLang.Proofs.Rebinding

namespace ScriptLang

set_option autoImplicit false

open ScriptLang.Bound (Stmt Expr Submission Binder)

/-! ## Last values -/

/-- Whether a statement gives the last value when it is run. -/
def Bound.Stmt.gives : Stmt → Bool
  | .declare .. | .expr _ => true
  | _ => false

namespace Machine

variable {image : Image}

/-- Whether a run comes to a declaration or an expression statement. -/
def Executes (image : Image) (m : Machine) : Prop :=
  ∃ k m' s, m.Reaches image k m' ∧ image.code[m'.pc]? = some s ∧ s.gives = true

theorem Executes.of_step {m next : Machine} (first : m.step image = .running next)
    (later : next.Executes image) : m.Executes image := by
  obtain ⟨k, m', s, reach, code, gives⟩ := later
  exact ⟨k + 1, m', s, .step first reach, code, gives⟩

theorem Executes.step {m next : Machine} {s : Stmt} (code : image.code[m.pc]? = some s)
    (plain : s.gives = false) (first : m.step image = .running next) (executes : m.Executes image) :
    next.Executes image := by
  obtain ⟨k, m', s', reach, code', gives⟩ := executes
  cases reach with
  | here =>
      rw [code] at code'
      cases code'
      rw [plain] at gives
      cases gives
  | step first' rest =>
      rw [first] at first'
      cases first'
      exact ⟨_, m', s', rest, code', gives⟩

/-- A statement that gives the last value does not look at the one before it. -/
theorem execute_of_gives {s : Stmt} (gives : s.gives = true) (pc : Nat) (w : World)
    (last last' : Value) : execute image ⟨pc, last, w⟩ s = execute image ⟨pc, last', w⟩ s := by
  cases s with
  | declare v init => rfl
  | expr e => rfl
  | _ => cases gives

/-- Any other statement hands the last value on, or stops with a fault. -/
theorem execute_of_not_gives {s : Stmt} (plain : s.gives = false) (pc : Nat) (w : World) :
    (∃ pc' w', ∀ last, execute image ⟨pc, last, w⟩ s = .running ⟨pc', last, w'⟩) ∨
      ∃ f w', ∀ last, execute image ⟨pc, last, w⟩ s = .stopped (.error f) w' := by
  have jumps : ∀ target (w : World),
      (∃ pc' w', ∀ last, jump image ⟨pc, last, w⟩ target = .running ⟨pc', last, w'⟩) ∨
        ∃ f w', ∀ last, jump image ⟨pc, last, w⟩ target = .stopped (.error f) w' := by
    intro target w
    unfold jump
    cases image.target? target with
    | some index => exact .inl ⟨index, w, fun _ => rfl⟩
    | none => exact .inr ⟨_, w, fun _ => rfl⟩
  cases s with
  | declare v init => cases plain
  | expr e => cases plain
  | goto target => exact jumps target w
  | branch target test when =>
      simp only [execute]
      obtain ⟨result, w'⟩ := test.eval w
      cases result with
      | error f => exact .inr ⟨f, w', fun _ => rfl⟩
      | ok x =>
      cases x with
      | bool b =>
          by_cases taken : b = when
          · simp only [taken, if_true]
            exact jumps target w'
          · simp only [taken, if_false]
            exact .inl ⟨pc + 1, w', fun _ => rfl⟩
      | _ => exact .inr ⟨_, w', fun _ => rfl⟩
  | label here => exact .inl ⟨pc + 1, w, fun _ => rfl⟩
  | _ => exact .inr ⟨_, w, fun _ => rfl⟩

/-- A run that gives a last value of its own, or stops with a fault, does so after every last value
before it; any other run gives that value back. -/
theorem run_last {fuel pc : Nat} {last : Value} {w : World} {o : Outcome Value}
    (ended : run image fuel ⟨pc, last, w⟩ = some o) :
    ((∀ x, o.1 = .ok x → Executes image ⟨pc, last, w⟩) ∧
        ∀ last', run image fuel ⟨pc, last', w⟩ = some o) ∨
      (¬ Executes image ⟨pc, last, w⟩ ∧
        ∀ last', run image fuel ⟨pc, last', w⟩ = some (.ok last', o.2)) := by
  induction fuel generalizing pc w with
  | zero => cases ended
  | succ fuel ih =>
      cases code : image.code[pc]? with
      | none =>
          have stops : ∀ last', run image (fuel + 1) ⟨pc, last', w⟩ = some (.ok last', w) := by
            intro last'
            rw [run, Machine.step, code]
          rw [stops] at ended
          cases ended
          refine .inr ⟨?_, stops⟩
          rintro ⟨k, m', s, reach, code', -⟩
          cases reach with
          | here =>
              rw [code] at code'
              cases code'
          | step first rest =>
              rw [Machine.step, code] at first
              cases first
      | some s =>
          have steps : ∀ last', Machine.step image ⟨pc, last', w⟩ = execute image ⟨pc, last', w⟩ s :=
            fun last' => step_of_code code
          cases gives : s.gives with
          | true =>
              refine .inl ⟨fun _ _ => ⟨0, _, s, .here _, code, gives⟩, ?_⟩
              intro last'
              rw [run, steps, execute_of_gives gives pc w last' last, ← steps]
              rw [run] at ended
              exact ended
          | false =>
              rcases @execute_of_not_gives image s gives pc w with
                ⟨pc', w', running⟩ | ⟨f, w', stopped⟩
              · have next : ∀ last', Machine.step image ⟨pc, last', w⟩ = .running ⟨pc', last', w'⟩ :=
                  fun last' => (steps last').trans (running last')
                have rest : ∀ last', run image (fuel + 1) ⟨pc, last', w⟩ =
                    run image fuel ⟨pc', last', w'⟩ := by
                  intro last'
                  rw [run, next]
                rw [rest] at ended
                simp only [rest]
                rcases ih ended with ⟨executes, same⟩ | ⟨none, back⟩
                · exact .inl ⟨fun x value => .of_step (next last) (executes x value), same⟩
                · exact .inr ⟨fun executes => none (executes.step code gives (next last)), back⟩
              · have stops : ∀ last', run image (fuel + 1) ⟨pc, last', w⟩ = some (.error f, w') := by
                  intro last'
                  rw [run, steps, stopped]
                rw [stops] at ended
                cases ended
                refine .inl ⟨?_, stops⟩
                intro x value
                cases value

/-- A run stops after every last value, with the same world. -/
theorem run_other {fuel pc : Nat} {last : Value} {w : World} {o : Outcome Value}
    (ended : run image fuel ⟨pc, last, w⟩ = some o) (last' : Value) :
    ∃ o', run image fuel ⟨pc, last', w⟩ = some o' ∧ o'.2 = o.2 := by
  rcases run_last ended with ⟨-, same⟩ | ⟨-, back⟩
  · exact ⟨o, same last', rfl⟩
  · exact ⟨_, back last', rfl⟩

end Machine

/-! ## Binding in two parts -/

namespace Bound

theorem bindStmts_append (p q : List Syntax.Stmt) (b : Binder) :
    bindStmts (p ++ q) b =
      ((bindStmts p b).1 ++ (bindStmts q (bindStmts p b).2).1,
        (bindStmts q (bindStmts p b).2).2) := by
  induction p generalizing b with
  | nil => rw [List.nil_append, bindStmts_nil]; rfl
  | cons s ss ih =>
      rw [List.cons_append, bindStmts_cons, bindStmts_cons, ih]
      rfl

theorem Renaming.shift_zero (v : Variable) : (Renaming.shift 0 0).var v = v := by
  have same : (Renaming.shift 0 0).id v.id = v.id := by simp [Renaming.shift]
  rw [Renaming.var, same]
  rfl

/-- Statements use and declare variables with numbers below the counter. -/
theorem bindStmts_low {body : List Syntax.Stmt} {b : Binder}
    (clean : (bindStmts body b).2.problems = []) (low : ∀ v ∈ b.scope.vars, v.id < b.nextId) :
    (∀ v ∈ Stmt.varsOf (bindStmts body b).1, v.id < (bindStmts body b).2.nextId) ∧
      ∀ v ∈ (bindStmts body b).2.scope.vars, v.id < (bindStmts body b).2.nextId := by
  have grows := grows_all body b
  -- the numbers are not moved at all
  have same : ∀ found : Option Variable, found = found.map (Renaming.shift 0 0).var := by
    intro found
    cases found with
    | none => rfl
    | some v => rw [Option.map_some, Renaming.shift_zero]
  have goes : Binder.Goes 0 0 (fun id => id < (bindStmts body b).2.nextId) [] b b := by
    refine ⟨⟨fun name => same _, ?_, fun _ => rfl⟩, ⟨b.scope.inner.vars, rfl, ?_⟩, ?_,
      Nat.zero_le _, grows.clean clean⟩
    · intro v member
      exact Nat.lt_of_lt_of_le (low v member) grows.nextId
    · refine (List.map_congr_left (fun v _ => ?_)).trans (List.map_id _) |>.symm
      exact Renaming.shift_zero v
    · simp [Renaming.shift]
  have rebinds := bindStmts_rebinds
    (fun s _ b b' => bindStmt_rebinds (fun i _ below => below) s [] b b') goes clean (Nat.le_refl _)
  exact ⟨rebinds.vars, rebinds.after.scope.known⟩

/-- The binder after a program on an empty chain. -/
abbrev Binder.afterFirst (p : List Syntax.Stmt) : Binder := (bindStmts p (.atStart [] 0)).2

/-- The scope after a program on an empty chain: its top-level variables, and the builtins. -/
theorem scope_afterFirst (p : List Syntax.Stmt) :
    (Binder.afterFirst p).scope =
      ⟨⟨(Binder.afterFirst p).scope.declared, []⟩, Scope.builtins.frames⟩ := by
  obtain ⟨vs, same⟩ := extends_all p (.atStart [] 0)
  rw [Binder.afterFirst, same]
  rfl

theorem vars_afterFirst (p : List Syntax.Stmt) :
    (Binder.afterFirst p).scope.vars = (Binder.afterFirst p).scope.declared := by
  have none : Scope.builtins.frames.flatMap Frame.vars = [] := builtins_vars
  rw [scope_afterFirst, Scope.vars, Scope.frames, List.flatMap_cons, none, List.append_nil]
  rfl

theorem low_atStart :
    ∀ v ∈ (Binder.atStart [] 0).scope.vars, v.id < (Binder.atStart [] 0).nextId := by
  intro v member
  have none : (Binder.atStart [] 0).scope.vars = [] := by
    show (scopeAfter []).push.vars = []
    rw [Scope.vars_push]
    exact builtins_vars
  rw [none] at member
  cases member

theorem low_afterFirst {p : List Syntax.Stmt} (clean : (Binder.afterFirst p).problems = []) :
    ∀ v ∈ (Binder.afterFirst p).scope.declared, v.id < (Binder.afterFirst p).nextId := by
  rw [← vars_afterFirst]
  exact (bindStmts_low clean low_atStart).2

theorem Renaming.shift_of_lt {first target : Nat} {v : Variable} (low : v.id < first) :
    (Renaming.shift first target).var v = v := by
  have same : (Renaming.shift first target).id v.id = v.id := if_pos low
  rw [Renaming.var, same]
  rfl

/-- The second part of a program is bound after the first to the same statements, under numbers from
any other one on. -/
theorem bindStmts_after {p q : List Syntax.Stmt}
    (clean : (Binder.afterFirst (p ++ q)).problems = []) {sub : Submission}
    (vars : sub.vars = (Binder.afterFirst p).scope.declared) (n : Nat) :
    RebindsAll (Binder.afterFirst p).nextId n
      (fun id => (sub.vars.any (·.id = id)) = true ∨ (Binder.afterFirst p).nextId ≤ id) sub.vars
      (bindStmts q (Binder.afterFirst p)) (bindStmts q (.atStart [sub] n)) := by
  rw [Binder.afterFirst, bindStmts_append] at clean
  have grows := grows_all q (Binder.afterFirst p)
  have low := low_afterFirst (grows.clean clean)
  have scope := scope_afterFirst p
  have listed := vars_afterFirst p
  rw [← vars] at low scope listed
  have goes : Binder.Goes (Binder.afterFirst p).nextId n
      (fun id => (sub.vars.any (·.id = id)) = true ∨ (Binder.afterFirst p).nextId ≤ id) sub.vars
      (Binder.afterFirst p) (.atStart [sub] n) := by
    refine ⟨⟨?_, ?_, ?_⟩, ⟨[], ?_, rfl⟩, ?_, Nat.le_refl _, rfl⟩
    · intro name
      have same : (Binder.atStart [sub] n).scope.find? name = (Binder.afterFirst p).scope.find? name := by
        rw [scope]
        rfl
      rw [same]
      cases found : (Binder.afterFirst p).scope.find? name with
      | none => rfl
      | some v =>
          have member := Scope.mem_vars_of_find? found
          rw [listed] at member
          rw [Option.map_some, Renaming.shift_of_lt (low v member)]
    · intro v member
      rw [listed] at member
      exact .inl (Variable.any_of_mem member)
    · intro name
      rw [scope]
      rfl
    · rw [scope, List.append_nil]
    · have here : ¬ (Binder.afterFirst p).nextId < (Binder.afterFirst p).nextId := Nat.lt_irrefl _
      simp only [Renaming.shift, here, if_false, Nat.sub_self]
      rfl
  exact bindStmts_rebinds
    (fun s _ b b' => bindStmt_rebinds (fun i above _ => .inr above) s sub.vars b b') goes clean
    (Nat.le_refl _)

/-! ## Running in two parts -/

theorem Stmt.interpretAll_unique {n m : Nat} {body : List Stmt} {last : Value} {w : World}
    {o p : Outcome Value} (first : Stmt.interpretAll n body last w = some o)
    (second : Stmt.interpretAll m body last w = some p) : o = p := by
  have one := Stmt.interpretAll_more (Nat.le_max_left n m) first
  rw [Stmt.interpretAll_more (Nat.le_max_right n m) second] at one
  exact (Option.some.inj one).symm

/-- Statements run as their first part and then their second. -/
theorem Stmt.interpretAll_append_iff {rounds : Nat} {xs ys : List Stmt} {last x : Value} {w w' : World}
    (first : Stmt.interpretAll rounds xs last w = some (.ok x, w')) {o : Outcome Value} :
    (∃ n, Stmt.interpretAll n (xs ++ ys) last w = some o) ↔
      ∃ n, Stmt.interpretAll n ys x w' = some o := by
  constructor
  · rintro ⟨n, ended⟩
    rw [Stmt.interpretAll_append] at ended
    cases begun : Stmt.interpretAll n xs last w with
    | none =>
        rw [begun] at ended
        cases ended
    | some p =>
        rw [begun, Stmt.interpretAll_unique begun first] at ended
        exact ⟨n, ended⟩
  · rintro ⟨n, ended⟩
    refine ⟨max rounds n, ?_⟩
    rw [Stmt.interpretAll_append, Stmt.interpretAll_more (Nat.le_max_left rounds n) first]
    exact Stmt.interpretAll_more (Nat.le_max_right rounds n) ended

theorem Stmt.interpretAll_append_fault {rounds : Nat} {xs : List Stmt} {last : Value} {w w' : World}
    {f : Fault} (first : Stmt.interpretAll rounds xs last w = some (.error f, w')) (ys : List Stmt) :
    Stmt.interpretAll rounds (xs ++ ys) last w = some (.error f, w') := by
  rw [Stmt.interpretAll_append, first]
  rfl

end Bound

/-- The machine stops on the program of a submission if and only if its statements end. -/
theorem Attempt.interpretAll_iff_run {a : Attempt} {body : List Stmt}
    (statement : a.submission.statement = .block body) (structured : Stmt.areStructured body = true)
    (ids : ∀ v ∈ Stmt.varsOf body, v.id < a.nextId) {last : Value} {w : World}
    (fresh : ∀ slot ∈ w.store.slots, slot.symbol.id < a.nextId) {o : Outcome Value} :
    (∃ rounds, Stmt.interpretAll rounds body last w = some o) ↔
      ∃ fuel p, Machine.run (.load a.lowered.program) fuel ⟨0, last, w⟩ = some p ∧
        p.below a.nextId = o := by
  have agree : (∃ rounds, (Stmt.block body).interpret rounds last (w.below a.nextId) = some o) ↔ _ :=
    Bound.Stmt.interpret_iff_run (s := .block body) structured ids
  rw [World.below_eq fresh] at agree
  rw [Attempt.lowered, statement]
  exact agree

/-! ## The world between the parts -/

/-- A stream after some text. -/
def Sink.after (sink : Sink) (before : String) : Sink :=
  ⟨fun written text => sink.accept (before ++ written) text⟩

/-- The same world, in which nothing has been written to the rest of the stream. -/
def World.resume (w : World) : World := { w with output := "", sink := w.sink.after w.output }

/-- Go on with the rest of the streams. -/
def Session.resume (s : Session) : Session := { s with world := s.world.resume }

/-- The top-level variables of the first part, and all of the second. -/
def carried (vs : List Variable) (first : Nat) (id : Nat) : Bool :=
  vs.any (·.id = id) || decide (first ≤ id)

theorem injects_carried (vs : List Variable) {first target : Nat} (le : first ≤ target) :
    (Renaming.shift first target).Injects (carried vs first) := by
  intro i j _ _ same
  simp only [Renaming.shift] at same
  split at same
  · split at same <;> omega
  · split at same <;> omega

theorem chainVariables_singleton (sub : Submission) : chainVariables [sub] = sub.vars := by
  simp [chainVariables]

theorem Renaming.shift_slot {first target : Nat} {slot : Slot} (low : slot.symbol.id < first) :
    (Renaming.shift first target).slot slot = slot := by
  rw [Renaming.slot, Bound.Renaming.shift_of_lt low]

theorem Store.prune_eq_view {s : Store} {sub : Submission} {first target : Nat}
    (low : ∀ v ∈ sub.vars, v.id < first) :
    s.prune [sub] = (s.below first).view (.shift first target) (carried sub.vars first) := by
  have kept : ∀ slot : Slot, (carried sub.vars first slot.symbol.id && decide (slot.symbol.id < first)) =
      sub.vars.any (·.id = slot.symbol.id) := by
    intro slot
    cases listed : sub.vars.any (·.id = slot.symbol.id) with
    | true =>
        have small := Variable.lt_of_any low listed
        simp [carried, listed, small]
    | false =>
        by_cases small : slot.symbol.id < first
        · simp [carried, listed, small]
        · simp [small]
  unfold prune view below retain
  rw [chainVariables_singleton, List.filter_filter]
  simp only [kept]
  congr 1
  refine ((List.map_congr_left ?_).trans (List.map_id _)).symm
  intro slot member
  exact Renaming.shift_slot (Variable.lt_of_any low (List.mem_filter.1 member).2)

/-- The second part starts in the world that the first leaves, without local variables. -/
theorem World.seen_resume {w : World} {sub : Submission} {first target : Nat}
    (low : ∀ v ∈ sub.vars, v.id < first) :
    World.Seen (.shift first target) (carried sub.vars first) w.output (w.below first)
      ({ w with store := w.store.prune [sub] } : World).resume := by
  refine ⟨Store.prune_eq_view low, rfl, ?_, fun _ _ => rfl, rfl⟩
  show w.output = w.output ++ ""
  rw [String.append_empty]

/-! ## The stores after the parts -/

/-- What a store lists: names, types, whether they can be assigned to, and values. -/
def Store.entries (s : Store) : List (String × Ty × Bool × Value) :=
  s.slots.map fun slot => (slot.symbol.name, slot.symbol.ty, slot.symbol.mutable, slot.value)

namespace Store

theorem prune_below {c : Nat} (s : Store) {chain : List Submission}
    (low : ∀ v ∈ chainVariables chain, v.id < c) : (s.below c).prune chain = s.prune chain :=
  s.retain_below low

/-- Top-level variables can be picked before or after they are renamed. -/
theorem prune_view {ρ : Renaming} {keep : Nat → Bool} (inj : ρ.Injects keep) (s : Store)
    {chain chain' : List Submission}
    (vars : chainVariables chain' = (chainVariables chain).map ρ.var)
    (kept : ∀ v ∈ chainVariables chain, keep v.id = true) :
    ((s.view ρ keep).prune chain').slots = (s.prune chain).slots.map ρ.slot := by
  unfold prune retain view
  rw [List.filter_map, List.filter_filter, vars]
  refine congrArg (List.map ρ.slot) (List.filter_congr ?_)
  intro slot _
  rw [Function.comp_apply, List.any_map]
  cases stays : keep slot.symbol.id with
  | false =>
      rw [Bool.and_false, eq_comm, List.any_eq_false]
      intro v member number
      rw [← of_decide_eq_true number, kept v member] at stays
      cases stays
  | true =>
      rw [Bool.and_true, Bool.eq_iff_iff, List.any_eq_true, List.any_eq_true]
      refine exists_congr fun v => and_congr_right ?_
      intro member
      show decide (ρ.id v.id = ρ.id slot.symbol.id) = true ↔ decide (v.id = slot.symbol.id) = true
      rw [decide_eq_true_eq, decide_eq_true_eq]
      exact ⟨inj _ _ (kept v member) stays, congrArg ρ.id⟩

end Store

theorem Renaming.shift_result {α : Type} (first target : Nat) (result : Except Fault α) :
    (Renaming.shift first target).result result = result := by
  cases result with
  | ok a => rfl
  | error f => cases f <;> rfl

/-! ## A program and its two parts -/

/-- A program without problems on an empty chain, cut in two: the texts have no problems, and the
statements of the program are those of its parts. -/
structure Cut (t₁ t₂ t : Syntax.Tree) : Prop where
  text₁ : t₁.diagnostics = []
  text₂ : t₂.diagnostics = []
  statements : t.root.statements = t₁.root.statements ++ t₂.root.statements
  clean : (Attempt.bind [] 0 t).diagnostics = []

namespace Cut

variable {t₁ t₂ t : Syntax.Tree}

/-- Every program without problems can be cut after each of its statements. -/
theorem take_drop (clean : (Attempt.bind [] 0 t).diagnostics = []) (k : Nat) :
    Cut { t with root := { t.root with statements := t.root.statements.take k } }
      { t with root := { t.root with statements := t.root.statements.drop k } } t where
  text₁ := (List.append_eq_nil_iff.1 clean).1
  text₂ := (List.append_eq_nil_iff.1 clean).1
  statements := (List.take_append_drop k _).symm
  clean := clean

/-- The binder between the parts. -/
abbrev between (t₁ : Syntax.Tree) : Binder := Binder.afterFirst t₁.root.statements

/-- The statements of a tree, bound on an empty chain. -/
abbrev bound (t : Syntax.Tree) : List Stmt := (Bound.bindStmts t.root.statements (.atStart [] 0)).1

/-- The statements of the second part, bound in the middle of the program. -/
abbrev rest (t₁ t₂ : Syntax.Tree) : List Stmt :=
  (Bound.bindStmts t₂.root.statements (between t₁)).1

theorem bound_eq (cut : Cut t₁ t₂ t) : bound t = bound t₁ ++ rest t₁ t₂ := by
  rw [bound, cut.statements, Bound.bindStmts_append]

theorem after_eq (cut : Cut t₁ t₂ t) :
    Binder.afterFirst t.root.statements =
      (Bound.bindStmts t₂.root.statements (between t₁)).2 := by
  rw [Binder.afterFirst, cut.statements, Bound.bindStmts_append]

theorem problems (cut : Cut t₁ t₂ t) : (Binder.afterFirst t.root.statements).problems = [] := by
  have meaning := (List.append_eq_nil_iff.1 cut.clean).2
  exact List.map_eq_nil_iff.1 (List.append_eq_nil_iff.1 meaning).1

theorem grows (cut : Cut t₁ t₂ t) :
    (between t₁).Grows (Binder.afterFirst t.root.statements) := by
  rw [cut.after_eq]
  exact Bound.grows_all _ _

/-- The first part has no problems. -/
theorem clean_first (cut : Cut t₁ t₂ t) : (Attempt.bind [] 0 t₁).diagnostics = [] := by
  have problems := cut.grows.clean cut.problems
  show t₁.diagnostics ++ ((between t₁).problems.map _ ++ []) = []
  rw [cut.text₁, problems]
  rfl

/-- The second part, after the first. -/
theorem rebinds (cut : Cut t₁ t₂ t) (n : Nat) :
    Bound.RebindsAll (between t₁).nextId n
      (fun id => ((Attempt.bind [] 0 t₁).submission.vars.any (·.id = id)) = true ∨
        (between t₁).nextId ≤ id)
      (Attempt.bind [] 0 t₁).submission.vars (Bound.bindStmts t₂.root.statements (between t₁))
      (Bound.bindStmts t₂.root.statements (.atStart [(Attempt.bind [] 0 t₁).submission] n)) := by
  refine Bound.bindStmts_after ?_ rfl n
  rw [← cut.statements]
  exact cut.problems

/-- The second part has no problems after the first. -/
theorem clean_second (cut : Cut t₁ t₂ t) (n : Nat) :
    (Attempt.bind [(Attempt.bind [] 0 t₁).submission] n t₂).diagnostics = [] := by
  have own := (cut.rebinds n).after.clean
  have inherited := (List.append_eq_nil_iff.1 cut.clean_first).2
  show t₂.diagnostics ++ ((Bound.bindStmts t₂.root.statements
    (.atStart [(Attempt.bind [] 0 t₁).submission] n)).2.problems.map _ ++
      (Attempt.bind [] 0 t₁).submission.diagnostics) = []
  rw [cut.text₂, own, inherited]
  rfl

/-! ### Statements and numbers -/

theorem structured (p : List Syntax.Stmt) (b : Binder) :
    Stmt.areStructured (Bound.bindStmts p b).1 = true :=
  Bound.bindStmts_structured (fun s _ => Bound.bindStmt_structured s) b

theorem low_first (cut : Cut t₁ t₂ t) :
    ∀ v ∈ (Attempt.bind [] 0 t₁).submission.vars, v.id < (between t₁).nextId :=
  Bound.low_afterFirst (cut.grows.clean cut.problems)

theorem ids_first (cut : Cut t₁ t₂ t) : ∀ v ∈ Stmt.varsOf (bound t₁), v.id < (between t₁).nextId :=
  (Bound.bindStmts_low (cut.grows.clean cut.problems) Bound.low_atStart).1

theorem ids_whole (cut : Cut t₁ t₂ t) :
    ∀ v ∈ Stmt.varsOf (bound t), v.id < (Binder.afterFirst t.root.statements).nextId :=
  (Bound.bindStmts_low cut.problems Bound.low_atStart).1

/-- The second part, bound after the first with numbers from `n` on. -/
abbrev later (t₁ t₂ : Syntax.Tree) (n : Nat) : List Stmt × Binder :=
  Bound.bindStmts t₂.root.statements (.atStart [(Attempt.bind [] 0 t₁).submission] n)

theorem ids_second (cut : Cut t₁ t₂ t) {n : Nat} (le : (between t₁).nextId ≤ n) :
    ∀ v ∈ Stmt.varsOf (later t₁ t₂ n).1, v.id < (later t₁ t₂ n).2.nextId := by
  refine (Bound.bindStmts_low (cut.rebinds n).after.clean ?_).1
  intro v member
  have listed : v ∈ (Bound.scopeAfter [(Attempt.bind [] 0 t₁).submission]).vars := by
    rw [← Scope.vars_push]
    exact member
  rw [mem_vars_scopeAfter, chainVariables_singleton] at listed
  exact Nat.lt_of_lt_of_le (cut.low_first v listed) le

/-- The second part does after the first what it does in the middle of the program. -/
theorem later_seen (cut : Cut t₁ t₂ t) {n : Nat} (le : (between t₁).nextId ≤ n) (rounds : Nat)
    (last : Value) (w : World) :
    RunSeen (.shift (between t₁).nextId n)
      (carried (Attempt.bind [] 0 t₁).submission.vars (between t₁).nextId) w.output
      (Stmt.interpretAll rounds (rest t₁ t₂) last (w.below (between t₁).nextId))
      (Stmt.interpretAll rounds (later t₁ t₂ n).1 last
        ({ w with store := w.store.prune [(Attempt.bind [] 0 t₁).submission] } : World).resume) := by
  have rebinds := cut.rebinds n
  rw [rebinds.body]
  refine Bound.Stmt.interpretAll_seen ?_ last
    (World.seen_resume cut.low_first)
  intro s member last w w' seen
  refine s.interpret_seen (injects_carried _ le) rounds ?_ last seen
  intro v inside
  rw [carried, Bool.or_eq_true, decide_eq_true_eq]
  exact rebinds.vars v (Bound.Stmt.mem_varsOf.2 ⟨s, member, inside⟩)

/-! ### Runs -/

theorem fresh_of_empty {w : World} (empty : w.store = .empty) {c : Nat} :
    ∀ slot ∈ w.store.slots, slot.symbol.id < c := by
  rw [empty]
  intro slot member
  cases member

/-- The world in which the second part starts. -/
abbrev halfway (t₁ : Syntax.Tree) (w : World) : World :=
  ({ w with store := w.store.prune [(Attempt.bind [] 0 t₁).submission] } : World).resume

theorem first_iff (cut : Cut t₁ t₂ t) {w : World} (empty : w.store = .empty) {o : Outcome Value} :
    (∃ rounds, Stmt.interpretAll rounds (bound t₁) .void w = some o) ↔
      ∃ fuel p, runProgram fuel (Attempt.bind [] 0 t₁).lowered.program w = some p ∧
        p.below (between t₁).nextId = o :=
  Attempt.interpretAll_iff_run (a := .bind [] 0 t₁) rfl (structured _ _) cut.ids_first
    (fresh_of_empty empty)

theorem whole_iff (cut : Cut t₁ t₂ t) {w : World} (empty : w.store = .empty) {o : Outcome Value} :
    (∃ rounds, Stmt.interpretAll rounds (bound t₁ ++ rest t₁ t₂) .void w = some o) ↔
      ∃ fuel p, runProgram fuel (Attempt.bind [] 0 t).lowered.program w = some p ∧
        p.below (Binder.afterFirst t.root.statements).nextId = o := by
  rw [← cut.bound_eq]
  exact Attempt.interpretAll_iff_run (a := .bind [] 0 t) rfl (structured _ _) cut.ids_whole
    (fresh_of_empty empty)

theorem second_iff (cut : Cut t₁ t₂ t) {n : Nat} (le : (between t₁).nextId ≤ n) {last : Value}
    {w : World} {o : Outcome Value} :
    (∃ rounds, Stmt.interpretAll rounds (later t₁ t₂ n).1 last (halfway t₁ w) = some o) ↔
      ∃ fuel p, Machine.run
          (.load (Attempt.bind [(Attempt.bind [] 0 t₁).submission] n t₂).lowered.program) fuel
          ⟨0, last, halfway t₁ w⟩ = some p ∧ p.below (later t₁ t₂ n).2.nextId = o := by
  refine Attempt.interpretAll_iff_run (a := .bind [(Attempt.bind [] 0 t₁).submission] n t₂) rfl
    (structured _ _) (cut.ids_second le) ?_
  intro slot member
  have listed := (List.mem_filter.1 member).2
  rw [chainVariables_singleton] at listed
  have grows := Bound.grows_all t₂.root.statements
    (.atStart [(Attempt.bind [] 0 t₁).submission] n)
  exact Nat.lt_of_lt_of_le (Variable.lt_of_any cut.low_first listed) (Nat.le_trans le grows.nextId)

/-- Whether the second part, after a first part that wrote `before`, leaves the world as the program
leaves it. -/
def Leaves (t₁ t₂ t : Syntax.Tree) (n : Nat) (before : String) (w w₂ : World) : Prop :=
  World.Seen (.shift (between t₁).nextId n)
    (carried (Attempt.bind [] 0 t₁).submission.vars (between t₁).nextId) before
    (w.below (Binder.afterFirst t.root.statements).nextId) (w₂.below (later t₁ t₂ n).2.nextId)

theorem whole_of_second (cut : Cut t₁ t₂ t) {n : Nat} (le : (between t₁).nextId ≤ n) {w w₁ : World}
    (empty : w.store = .empty) {fuel₁ : Nat} {x : Value}
    (first : runProgram fuel₁ (Attempt.bind [] 0 t₁).lowered.program w = some (.ok x, w₁)) {fuel : Nat}
    {o₂ : Outcome Value}
    (ended : Machine.run
      (.load (Attempt.bind [(Attempt.bind [] 0 t₁).submission] n t₂).lowered.program) fuel
      ⟨0, x, halfway t₁ w₁⟩ = some o₂) :
    ∃ fuel o, runProgram fuel (Attempt.bind [] 0 t).lowered.program w = some o ∧
      o₂.1 = o.1 ∧ Leaves t₁ t₂ t n w₁.output o.2 o₂.2 := by
  obtain ⟨rounds₁, begun⟩ := (cut.first_iff empty).2 ⟨fuel₁, _, first, rfl⟩
  obtain ⟨rounds, gone⟩ := (cut.second_iff le).2 ⟨fuel, o₂, ended, rfl⟩
  have seen := cut.later_seen le rounds x w₁
  rw [gone] at seen
  cases middle : Stmt.interpretAll rounds (rest t₁ t₂) x (w₁.below (between t₁).nextId) with
  | none =>
      rw [middle] at seen
      exact seen.elim
  | some o =>
      rw [middle] at seen
      have whole := (Bound.Stmt.interpretAll_append_iff begun).2 ⟨rounds, middle⟩
      obtain ⟨fuel, p, stopped, rfl⟩ := (cut.whole_iff empty).1 whole
      exact ⟨fuel, p, stopped, seen.1.trans (Renaming.shift_result _ _ _), seen.2⟩

theorem second_of_whole (cut : Cut t₁ t₂ t) {n : Nat} (le : (between t₁).nextId ≤ n) {w w₁ : World}
    (empty : w.store = .empty) {fuel₁ : Nat} {x : Value}
    (first : runProgram fuel₁ (Attempt.bind [] 0 t₁).lowered.program w = some (.ok x, w₁)) {fuel : Nat}
    {o : Outcome Value}
    (ended : runProgram fuel (Attempt.bind [] 0 t).lowered.program w = some o) :
    ∃ fuel o₂, Machine.run
        (.load (Attempt.bind [(Attempt.bind [] 0 t₁).submission] n t₂).lowered.program) fuel
        ⟨0, x, halfway t₁ w₁⟩ = some o₂ ∧ o₂.1 = o.1 ∧ Leaves t₁ t₂ t n w₁.output o.2 o₂.2 := by
  obtain ⟨rounds₁, begun⟩ := (cut.first_iff empty).2 ⟨fuel₁, _, first, rfl⟩
  obtain ⟨rounds, middle⟩ := (Bound.Stmt.interpretAll_append_iff begun).1
    ((cut.whole_iff empty).2 ⟨fuel, o, ended, rfl⟩)
  have seen := cut.later_seen le rounds x w₁
  rw [middle] at seen
  cases gone : Stmt.interpretAll rounds (later t₁ t₂ n).1 x (halfway t₁ w₁) with
  | none =>
      rw [gone] at seen
      exact seen.elim
  | some o₂ =>
      rw [gone] at seen
      obtain ⟨fuel, p, stopped, rfl⟩ := (cut.second_iff le).1 ⟨rounds, gone⟩
      exact ⟨fuel, p, stopped, seen.1.trans (Renaming.shift_result _ _ _), seen.2⟩

theorem whole_of_fault (cut : Cut t₁ t₂ t) {w w₁ : World} (empty : w.store = .empty) {fuel₁ : Nat}
    {f : Fault}
    (first : runProgram fuel₁ (Attempt.bind [] 0 t₁).lowered.program w = some (.error f, w₁)) :
    ∃ fuel w', runProgram fuel (Attempt.bind [] 0 t).lowered.program w = some (.error f, w') ∧
      w'.output = w₁.output := by
  obtain ⟨rounds, begun⟩ := (cut.first_iff empty).2 ⟨fuel₁, _, first, rfl⟩
  have whole := Bound.Stmt.interpretAll_append_fault begun (rest t₁ t₂)
  obtain ⟨fuel, p, stopped, same⟩ := (cut.whole_iff empty).1 ⟨rounds, whole⟩
  obtain ⟨result, w'⟩ := p
  cases congrArg Prod.fst same
  exact ⟨fuel, w', stopped, congrArg (fun o : Outcome Value => o.2.output) same⟩

/-- The second part, after a first part that gave `x`, ends as the program does: with the same fault,
with the same value of its own, or without one where the program gives `x`. -/
theorem ends (cut : Cut t₁ t₂ t) {n : Nat} (le : (between t₁).nextId ≤ n) {w w₁ : World}
    (empty : w.store = .empty) {fuel₁ : Nat} {x : Value}
    (first : runProgram fuel₁ (Attempt.bind [] 0 t₁).lowered.program w = some (.ok x, w₁))
    {fuel₂ : Nat} {o₂ : Outcome Value}
    (ended₂ : runProgram fuel₂
      (Attempt.bind [(Attempt.bind [] 0 t₁).submission] n t₂).lowered.program (halfway t₁ w₁) = some o₂)
    {fuel : Nat} {o : Outcome Value}
    (ended : runProgram fuel (Attempt.bind [] 0 t).lowered.program w = some o) :
    ((∃ f, o₂.1 = .error f ∧ o.1 = .error f) ∨
      (∃ y, o₂.1 = .ok y ∧ o.1 = .ok y ∧ (Machine.start (halfway t₁ w₁)).Executes
        (.load (Attempt.bind [(Attempt.bind [] 0 t₁).submission] n t₂).lowered.program)) ∨
      (o₂.1 = .ok .void ∧ o.1 = .ok x ∧ ¬ (Machine.start (halfway t₁ w₁)).Executes
        (.load (Attempt.bind [(Attempt.bind [] 0 t₁).submission] n t₂).lowered.program))) ∧
      Leaves t₁ t₂ t n w₁.output o.2 o₂.2 := by
  rcases Machine.run_last ended₂ with ⟨executes, same⟩ | ⟨none, back⟩
  · obtain ⟨fuel', o', ended', result, leaves⟩ := cut.whole_of_second le empty first (same x)
    cases Machine.run_unique ended ended'
    refine ⟨?_, leaves⟩
    cases value : o₂.1 with
    | error f => exact .inl ⟨f, rfl, result.symm.trans value⟩
    | ok y => exact .inr (.inl ⟨y, rfl, result.symm.trans value, executes y value⟩)
  · obtain ⟨fuel', o', ended', result, leaves⟩ := cut.whole_of_second le empty first (back x)
    cases Machine.run_unique ended ended'
    have own := Machine.run_unique ended₂ (back .void)
    exact ⟨.inr (.inr ⟨congrArg Prod.fst own, result.symm, none⟩), leaves⟩

/-! ### What is left of the variables -/

theorem low_whole (cut : Cut t₁ t₂ t) :
    ∀ v ∈ chainVariables [(Attempt.bind [] 0 t).submission],
      v.id < (Binder.afterFirst t.root.statements).nextId := by
  rw [chainVariables_singleton]
  exact Bound.low_afterFirst cut.problems

/-- The chain has the top-level variables of the program, under moved numbers. -/
theorem chain_vars (cut : Cut t₁ t₂ t) (n : Nat) :
    chainVariables (Attempt.bind [(Attempt.bind [] 0 t₁).submission] n t₂).chain =
      (chainVariables [(Attempt.bind [] 0 t).submission]).map
        (Renaming.shift (between t₁).nextId n).var := by
  obtain ⟨new, flat, moved⟩ := (cut.rebinds n).after.inner
  have whole : (Attempt.bind [] 0 t).submission.vars =
      (Attempt.bind [] 0 t₁).submission.vars ++ new := by
    rw [← flat]
    exact congrArg (fun b : Binder => b.scope.declared) cut.after_eq
  have fixed : (Attempt.bind [] 0 t₁).submission.vars.map
      (Renaming.shift (between t₁).nextId n).var = (Attempt.bind [] 0 t₁).submission.vars := by
    refine (List.map_congr_left ?_).trans (List.map_id _)
    intro v member
    exact Bound.Renaming.shift_of_lt (cut.low_first v member)
  rw [chainVariables_singleton, whole, List.map_append, fixed, ← moved]
  rw [Attempt.chain, chainVariables_cons]
  exact congrArg (· ++ _) (chainVariables_singleton _)

theorem kept_whole (cut : Cut t₁ t₂ t) :
    ∀ v ∈ chainVariables [(Attempt.bind [] 0 t).submission],
      carried (Attempt.bind [] 0 t₁).submission.vars (between t₁).nextId v.id = true := by
  intro v member
  have known := (cut.rebinds 0).after.scope.known
  rw [← cut.after_eq, Bound.vars_afterFirst] at known
  rw [chainVariables_singleton] at member
  rw [carried, Bool.or_eq_true, decide_eq_true_eq]
  exact known v member

theorem low_chain (cut : Cut t₁ t₂ t) {n : Nat} (le : (between t₁).nextId ≤ n) :
    ∀ v ∈ chainVariables (Attempt.bind [(Attempt.bind [] 0 t₁).submission] n t₂).chain,
      v.id < (later t₁ t₂ n).2.nextId := by
  rw [cut.chain_vars n]
  intro v member
  obtain ⟨u, inside, rfl⟩ := List.mem_map.1 member
  have low := cut.low_whole u inside
  rw [(cut.rebinds n).after.nextId, ← cut.after_eq]
  have first := cut.grows.nextId
  simp only [Renaming.var_id, Renaming.shift]
  split <;> split <;> omega

/-- The stores list the same in the end. -/
theorem entries_eq (cut : Cut t₁ t₂ t) {n : Nat} (le : (between t₁).nextId ≤ n) {before : String}
    {w w₂ : World} (leaves : Leaves t₁ t₂ t n before w w₂) :
    (w.store.prune [(Attempt.bind [] 0 t).submission]).entries =
      (w₂.store.prune
        (Attempt.bind [(Attempt.bind [] 0 t₁).submission] n t₂).chain).entries := by
  have same : w₂.store.below (later t₁ t₂ n).2.nextId =
      (w.store.below (Binder.afterFirst t.root.statements).nextId).view
        (.shift (between t₁).nextId n)
        (carried (Attempt.bind [] 0 t₁).submission.vars (between t₁).nextId) := leaves.store
  rw [← Store.prune_below w.store cut.low_whole, ← Store.prune_below w₂.store (cut.low_chain le),
    same, Store.entries, Store.entries,
    Store.prune_view (injects_carried _ le) _ (cut.chain_vars n) cut.kept_whole, List.map_map]
  rfl

/-- A first part that is run takes its numbers and those of its hidden variables. -/
theorem nextId_le (t₁ : Syntax.Tree) :
    (between t₁).nextId ≤ (Attempt.bind [] 0 t₁).lowered.nextId := by
  rw [Attempt.lowered, Bound.lower_nextId]
  exact (Bound.Stmt.supply_le (Attempt.bind [] 0 t₁).submission.statement
    ⟨1, (between t₁).nextId⟩).2

end Cut

/-! ## Submissions -/

namespace Session

/-- The answer to a submission without diagnostics whose program stops. -/
theorem submit_of_run {s : Session} {tree : Syntax.Tree} (clean : (s.attempt tree).diagnostics = [])
    {fuel : Nat} {o : Outcome Value}
    (ended : runProgram fuel (s.attempt tree).lowered.program s.world = some o) :
    s.submit fuel tree = some (s.finish Reply.isValue (s.attempt tree) o) := by
  unfold submit evaluate
  dsimp only
  rw [clean, ended]
  rfl

theorem run_of_submit {s : Session} {tree : Syntax.Tree} (clean : (s.attempt tree).diagnostics = [])
    {fuel : Nat} {answer : Reply × Session} (submitted : s.submit fuel tree = some answer) :
    ∃ o, runProgram fuel (s.attempt tree).lowered.program s.world = some o ∧
      answer = s.finish Reply.isValue (s.attempt tree) o := by
  unfold submit evaluate at submitted
  dsimp only at submitted
  rw [clean] at submitted
  obtain ⟨o, ended, same⟩ := Option.map_eq_some_iff.1 submitted
  exact ⟨o, ended, same.symm⟩

theorem abandon_world (s : Session) (n : Nat) : (s.abandon n).world = s.world := by
  unfold abandon
  split <;> rfl

theorem finish_world (s : Session) (policy : Policy) (a : Attempt) (o : Outcome Value) :
    (s.finish policy a o).2.world = { o.2 with store := o.2.store.prune a.chain } := by
  unfold finish settle
  dsimp only
  split
  · rfl
  · unfold abandon
    split <;> rfl

theorem finish_value (s : Session) (a : Attempt) (x : Value) (w : World) :
    s.finish Reply.isValue a (.ok x, w) =
      (.value x, ⟨a.chain, a.lowered.nextId, { w with store := w.store.prune a.chain }⟩) := rfl

/-- The session between the two parts. -/
abbrev between (t₁ : Syntax.Tree) (w : World) : Session :=
  ⟨[(Attempt.bind [] 0 t₁).submission], (Attempt.bind [] 0 t₁).lowered.nextId, Cut.halfway t₁ w⟩

theorem resume_of_submit {t₁ t₂ t : Syntax.Tree} (cut : Cut t₁ t₂ t) {w : World} {fuel : Nat}
    {x : Value} {s₁ : Session} (submitted : (start w).submit fuel t₁ = some (.value x, s₁)) :
    ∃ w₁, runProgram fuel (Attempt.bind [] 0 t₁).lowered.program w = some (.ok x, w₁) ∧
      s₁.resume = between t₁ w₁ ∧ s₁.world.output = w₁.output := by
  obtain ⟨o, first, same⟩ := run_of_submit (s := start w) cut.clean_first submitted
  obtain ⟨result, w₁⟩ := o
  have reply : Reply.value x = .ofResult result := congrArg Prod.fst same
  cases result with
  | error f => cases reply
  | ok y =>
      cases reply
      rw [finish_value] at same
      cases congrArg Prod.snd same
      exact ⟨w₁, first, rfl, rfl⟩

theorem fault_of_first {t₁ t₂ t : Syntax.Tree} (cut : Cut t₁ t₂ t) {w : World}
    (empty : w.store = .empty) {fuel : Nat} {f : Fault} {s₁ : Session}
    (submitted : (start w).submit fuel t₁ = some (.fault f, s₁)) :
    ∃ fuel s, (start w).submit fuel t = some (.fault f, s) ∧ s.world.output = s₁.world.output := by
  obtain ⟨o, first, same⟩ := run_of_submit (s := start w) cut.clean_first submitted
  obtain ⟨result, w₁⟩ := o
  have reply : Reply.fault f = .ofResult result := congrArg Prod.fst same
  have world := congrArg (fun answer : Reply × Session => answer.2.world.output) same
  dsimp only at world
  rw [finish_world] at world
  cases result with
  | ok x => cases reply
  | error g =>
      cases reply
      obtain ⟨fuel, w', stopped, output⟩ := cut.whole_of_fault empty first
      refine ⟨fuel, ((start w).finish Reply.isValue ((start w).attempt t) (.error f, w')).2,
        submit_of_run (s := start w) cut.clean stopped, ?_⟩
      rw [finish_world]
      exact output.trans world.symm

/-- A program submitted in two parts does what it does in one.  Both parts are without problems.  If
the first part fails, the program fails with the same fault and the same text.  If it gives a value,
the second part, on the rest of the streams, stops if and only if the program does, with the same
fault or value; without a declaration or an expression statement to run the second part gives none,
and the program the value of the first part.  The texts written are one after the other what the
program writes, the same is left of the input and of the random words, and the stores list the same. -/
theorem chain_eq_unit {t₁ t₂ t : Syntax.Tree} (cut : Cut t₁ t₂ t) {w : World}
    (empty : w.store = .empty) :
    ((start w).attempt t₁).diagnostics = [] ∧
      (∀ n, (Attempt.bind [((start w).attempt t₁).submission] n t₂).diagnostics = []) ∧
      (∀ fuel f s₁, (start w).submit fuel t₁ = some (.fault f, s₁) →
        ∃ fuel s, (start w).submit fuel t = some (.fault f, s) ∧
          s.world.output = s₁.world.output) ∧
      ∀ fuel x s₁, (start w).submit fuel t₁ = some (.value x, s₁) →
        ((∃ fuel answer, s₁.resume.submit fuel t₂ = some answer) ↔
          ∃ fuel answer, (start w).submit fuel t = some answer) ∧
        ∀ fuel₂ r₂ s₂ fuel r s, s₁.resume.submit fuel₂ t₂ = some (r₂, s₂) →
          (start w).submit fuel t = some (r, s) →
          ((∃ f, r₂ = .fault f ∧ r = .fault f) ∨
            (∃ y, r₂ = .value y ∧ r = .value y ∧ (Machine.start s₁.resume.world).Executes
              (.load (s₁.resume.attempt t₂).lowered.program)) ∨
            (r₂ = .value .void ∧ r = .value x ∧ ¬ (Machine.start s₁.resume.world).Executes
              (.load (s₁.resume.attempt t₂).lowered.program))) ∧
          s.world.output = s₁.world.output ++ s₂.world.output ∧
          s.world.input = s₂.world.input ∧ s.world.draws = s₂.world.draws ∧
          s.world.store.entries = s₂.world.store.entries := by
  refine ⟨cut.clean_first, cut.clean_second, fun _ _ _ => fault_of_first cut empty, ?_⟩
  intro fuel₁ x s₁ submitted
  obtain ⟨w₁, first, resumed, output₁⟩ := resume_of_submit cut submitted
  have le := Cut.nextId_le t₁
  have clean₂ : ((between t₁ w₁).attempt t₂).diagnostics = [] := cut.clean_second _
  rw [resumed, output₁]
  refine ⟨⟨?_, ?_⟩, ?_⟩
  · rintro ⟨fuel, answer, submitted₂⟩
    obtain ⟨o₂, ended₂, -⟩ := run_of_submit clean₂ submitted₂
    obtain ⟨o₂', ended₂', -⟩ := Machine.run_other ended₂ x
    obtain ⟨fuel, o, ended, -⟩ := cut.whole_of_second le empty first ended₂'
    exact ⟨fuel, _, submit_of_run (s := start w) cut.clean ended⟩
  · rintro ⟨fuel, answer, submitted'⟩
    obtain ⟨o, ended, -⟩ := run_of_submit (s := start w) cut.clean submitted'
    obtain ⟨fuel, o₂, ended₂, -⟩ := cut.second_of_whole le empty first ended
    obtain ⟨o₂', ended₂', -⟩ := Machine.run_other ended₂ .void
    exact ⟨fuel, _, submit_of_run clean₂ ended₂'⟩
  · intro fuel₂ r₂ s₂ fuel r s submitted₂ submitted'
    obtain ⟨o₂, ended₂, same₂⟩ := run_of_submit clean₂ submitted₂
    obtain ⟨o, ended, same⟩ := run_of_submit (s := start w) cut.clean submitted'
    obtain ⟨result, leaves⟩ := cut.ends le empty first ended₂ ended
    have reply₂ : r₂ = .ofResult o₂.1 := congrArg Prod.fst same₂
    have reply : r = .ofResult o.1 := congrArg Prod.fst same
    have world₂ := congrArg (fun answer : Reply × Session => answer.2.world) same₂
    have world := congrArg (fun answer : Reply × Session => answer.2.world) same
    dsimp only at world₂ world
    rw [finish_world] at world₂ world
    rw [reply₂, reply, world₂, world]
    refine ⟨?_, leaves.output, leaves.input.symm, leaves.draws.symm, cut.entries_eq le leaves⟩
    rcases result with ⟨f, fault₂, fault⟩ | ⟨y, value₂, value, executes⟩ | ⟨value₂, value, none⟩
    · exact .inl ⟨f, congrArg Reply.ofResult fault₂, congrArg Reply.ofResult fault⟩
    · exact .inr (.inl ⟨y, congrArg Reply.ofResult value₂, congrArg Reply.ofResult value, executes⟩)
    · exact .inr (.inr ⟨congrArg Reply.ofResult value₂, congrArg Reply.ofResult value, none⟩)

/-- A program with a loop before the cut after its second statement. -/
def counting : Syntax.Tree :=
  .ofText "var a = 2; for i = 0 to a \x7b print(i) \x7d var c = a; print(c); c"

def countingUntil : Syntax.Tree :=
  { counting with root := { counting.root with statements := counting.root.statements.take 2 } }

def countingFrom : Syntax.Tree :=
  { counting with root := { counting.root with statements := counting.root.statements.drop 2 } }

/-- The loop of the first part takes a number for its bound, so the second part declares `c` under a
later one than the program does. -/
theorem counting_chain_eq_unit :
    Cut countingUntil countingFrom counting ∧ ∃ x s₁ y s₂ s,
      (start (.start [] (.ofSeed 0))).submit 100 countingUntil = some (.value x, s₁) ∧
      s₁.resume.submit 100 countingFrom = some (.value y, s₂) ∧
      (start (.start [] (.ofSeed 0))).submit 100 counting = some (.value y, s) ∧
      (chainVariables s₂.chain).map (·.id) ≠ (chainVariables s.chain).map (·.id) ∧
      s.world.output = s₁.world.output ++ s₂.world.output ∧
      s.world.store.entries = s₂.world.store.entries := by
  have cut : Cut countingUntil countingFrom counting := Cut.take_drop (by decide +kernel) 2
  obtain ⟨x, s₁, submitted, next⟩ : ∃ x s₁,
      (start (.start [] (.ofSeed 0))).submit 100 countingUntil = some (.value x, s₁) ∧
        answers (fun y s₂ => decide (y.ty = .int ∧ (chainVariables s₂.chain).map (·.id) = [0, 3]))
          (s₁.resume.submit 100 countingFrom) = true :=
    exists_value (by decide +kernel)
  obtain ⟨y, s₂, submitted₂, second⟩ := exists_value next
  obtain ⟨number, ids₂⟩ := of_decide_eq_true second
  obtain ⟨z, s, submitted', ids⟩ : ∃ z s,
      (start (.start [] (.ofSeed 0))).submit 100 counting = some (.value z, s) ∧
        decide ((chainVariables s.chain).map (·.id) = [0, 2]) = true :=
    exists_value (by decide +kernel)
  obtain ⟨result, output, -, -, entries⟩ :=
    ((chain_eq_unit cut rfl).2.2.2 _ _ _ submitted).2 _ _ _ _ _ _ submitted₂ submitted'
  have same : z = y := by
    rcases result with ⟨f, fault, -⟩ | ⟨v, value₂, value, -⟩ | ⟨value₂, -⟩
    · cases fault
    · cases value₂
      cases value
      rfl
    · cases value₂
      cases number
  rw [same] at submitted'
  refine ⟨cut, x, s₁, y, s₂, s, submitted, submitted₂, submitted', ?_, output, entries⟩
  rw [ids₂, of_decide_eq_true ids]
  decide

end Session

end ScriptLang
