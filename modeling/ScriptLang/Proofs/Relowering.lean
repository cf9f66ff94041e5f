/-
# ScriptLang.Proofs.Relowering -- lowering again, from a higher number

Lowering counts: the labels of a program from one, its hidden variables from the
next free number.  Under a renaming that counts on from that number, the code of a
renamed statement is the renamed code of the statement (`Stmt.code_rename`).  A
statement whose variables have lower numbers is its own renaming under a shift, so
lowering it from a higher number shifts the hidden variables of its program and
changes nothing else.

A renamed program goes step by step as the program does, in a world that is seen
through the renaming (`Machine.step_seen`, `runProgram_seen`).  This needs no
structure of the program, and no more steps than the program itself.  Afterwards
hidden variables are dropped, and what is left is the same
(`lower_relowers`).
-/
import ScriptLang.Proofs.Refusals

namespace ScriptLang

set_option autoImplicit false

open ScriptLang.Bound (Stmt Expr Submission)

/-! ## Code under other numbers -/

namespace Bound

variable {ρ : Renaming} {first : Nat}

theorem rename_boundVariable (keeps : ρ.KeepsNames) (id : Nat) :
    ρ.var (boundVariable id) = boundVariable (ρ.id id) := by
  rw [Renaming.var, boundVariable, keeps]
  rfl

theorem rename_increment (v : Variable) : (increment v).rename ρ = increment (ρ.var v) := rfl

theorem rename_belowBound (keeps : ρ.KeepsNames) (v : Variable) (id : Nat) :
    (belowBound v (boundVariable id)).rename ρ =
      belowBound (ρ.var v) (boundVariable (ρ.id id)) := by
  rw [← rename_boundVariable keeps]
  rfl

theorem map_rename_loopCode (label : Nat) (test : Expr) (body : List Stmt) :
    (loopCode label test body).map (Stmt.rename ρ) =
      loopCode label (test.rename ρ) (body.map (Stmt.rename ρ)) := by
  simp [loopCode, Stmt.rename]

/-- The next free numbers under a renaming, which leaves labels alone. -/
def Supply.rename (ρ : Renaming) (supply : Supply) : Supply := ⟨supply.label, ρ.id supply.id⟩

/-- Whether a renaming counts from a number on. -/
def Counts (ρ : Renaming) (first : Nat) : Prop := ∀ i, first ≤ i → ρ.id (i + 1) = ρ.id i + 1

/-- A renamed statement takes the renamed numbers. -/
theorem Stmt.supplyAfter_rename (counts : Counts ρ first) (s : Stmt) {supply : Supply}
    (above : first ≤ supply.id) :
    (s.rename ρ).supplyAfter (supply.rename ρ) = (s.supplyAfter supply).rename ρ := by
  induction s using Stmt.induction generalizing supply with
  | block body ih =>
      rw [Stmt.rename, Stmt.renameAll_eq_map, supplyAfter_block, supplyAfter_block]
      induction body generalizing supply with
      | nil => rw [List.map_nil, supplyAfterAll_nil, supplyAfterAll_nil]
      | cons s ss ihRest =>
          rw [List.forall_mem_cons] at ih
          rw [List.map_cons, supplyAfterAll_cons, supplyAfterAll_cons, ih.1 above]
          exact ihRest ih.2 (Nat.le_trans above (s.supply_le supply).2)
  | ifThen test yes ih =>
      rw [Stmt.rename, supplyAfter_ifThen, supplyAfter_ifThen, ih above]
      rfl
  | ifElse test yes no ihYes ihNo =>
      have above' := Nat.le_trans above (yes.supply_le supply).2
      rw [Stmt.rename, supplyAfter_ifElse, supplyAfter_ifElse, ihYes above]
      dsimp only
      rw [ihNo above']
      rfl
  | whileLoop test body ih =>
      rw [Stmt.rename, supplyAfter_whileLoop, supplyAfter_whileLoop, ih above]
      rfl
  | doWhile body test ih =>
      rw [Stmt.rename, supplyAfter_doWhile, supplyAfter_doWhile, ih above]
      rfl
  | forTo v lower upper body ih =>
      have next := counts _ (Nat.le_trans above (body.supply_le supply).2)
      rw [Stmt.rename, supplyAfter_forTo, supplyAfter_forTo, ih above, Supply.rename, Supply.rename,
        next]
  | _ => simp [Stmt.rename, Stmt.supplyAfter, lowerStmt]

/-- The code of a renamed statement is the renamed code. -/
theorem Stmt.code_rename (keeps : ρ.KeepsNames) (counts : Counts ρ first) (s : Stmt)
    {supply : Supply} (above : first ≤ supply.id) :
    (s.rename ρ).code (supply.rename ρ) = (s.code supply).map (Stmt.rename ρ) := by
  induction s using Stmt.induction generalizing supply with
  | block body ih =>
      rw [Stmt.rename, Stmt.renameAll_eq_map, code_block, code_block]
      induction body generalizing supply with
      | nil => rw [List.map_nil, codeAll_nil, codeAll_nil, List.map_nil]
      | cons s ss ihRest =>
          rw [List.forall_mem_cons] at ih
          rw [List.map_cons, codeAll_cons, codeAll_cons, List.map_append, ih.1 above,
            s.supplyAfter_rename counts above,
            ihRest ih.2 (Nat.le_trans above (s.supply_le supply).2)]
  | ifThen test yes ih =>
      rw [Stmt.rename, code_ifThen, code_ifThen, ih above, yes.supplyAfter_rename counts above]
      simp [Stmt.rename, Supply.rename]
  | ifElse test yes no ihYes ihNo =>
      have above' := Nat.le_trans above (yes.supply_le supply).2
      rw [Stmt.rename, code_ifElse, code_ifElse, ihYes above, yes.supplyAfter_rename counts above]
      dsimp only
      rw [ihNo above', no.supplyAfter_rename counts above']
      simp [Stmt.rename, Supply.rename]
  | whileLoop test body ih =>
      rw [Stmt.rename, code_whileLoop, code_whileLoop, map_rename_loopCode, ih above,
        body.supplyAfter_rename counts above, Supply.rename]
  | doWhile body test ih =>
      rw [Stmt.rename, code_doWhile, code_doWhile, ih above, body.supplyAfter_rename counts above]
      simp [Stmt.rename, Supply.rename]
  | forTo v lower upper body ih =>
      rw [Stmt.rename, code_forTo, code_forTo, ih above, body.supplyAfter_rename counts above]
      simp only [List.map_cons, map_rename_loopCode, List.map_append, List.map_nil, Stmt.rename,
        rename_belowBound keeps, rename_boundVariable keeps, rename_increment, Supply.rename]
  | _ => simp [Stmt.rename, Stmt.code, lowerStmt, flatten_of_not_block]

/-! ## What a renaming leaves alone -/

theorem map_eq_self {α : Type} {f : α → α} {as : List α} (each : ∀ a ∈ as, f a = a) :
    as.map f = as :=
  (List.map_congr_left each).trans (List.map_id _)

theorem Expr.rename_eq_self (e : Expr) (fixed : ∀ v ∈ e.vars, ρ.var v = v) : e.rename ρ = e := by
  induction e using Expr.induction with
  | call f args ih =>
      rw [Expr.rename, Expr.renameAll_eq_map]
      refine congrArg (Expr.call f) (map_eq_self fun e member => ih e member fun v inside => ?_)
      exact fixed v (Expr.mem_varsOf.2 ⟨e, member, inside⟩)
  | _ => simp_all [Expr.rename, Expr.vars]

/-- A statement whose variables stay is its own renaming. -/
theorem Stmt.rename_eq_self (s : Stmt) (fixed : ∀ v ∈ s.vars, ρ.var v = v) : s.rename ρ = s := by
  induction s using Stmt.induction with
  | block body ih =>
      rw [Stmt.rename, Stmt.renameAll_eq_map]
      refine congrArg Stmt.block (map_eq_self fun s member => ih s member fun v inside => ?_)
      exact fixed v (Stmt.mem_varsOf.2 ⟨s, member, inside⟩)
  | _ => simp_all [Stmt.rename, Stmt.vars, Expr.rename_eq_self]

theorem Expr.outline_rename (keeps : ρ.KeepsNames) (e : Expr) :
    (e.rename ρ).outline = e.outline := by
  induction e using Expr.induction with
  | call f args ih =>
      rw [Expr.rename, Expr.renameAll_eq_map, Expr.outline_call, Expr.outline_call, List.map_map]
      exact congrArg (Outline.node _) (List.map_congr_left ih)
  | _ => simp_all [Expr.rename, Expr.outline, Renaming.KeepsNames]

theorem variableText_rename (keeps : ρ.KeepsNames) (v : Variable) :
    variableText (ρ.var v) = variableText v := by
  rw [variableText, variableText, Renaming.var_name, keeps]
  rfl

/-- Numbers of variables are not shown. -/
theorem Stmt.outline_rename (keeps : ρ.KeepsNames) (s : Stmt) :
    (s.rename ρ).outline = s.outline := by
  induction s using Stmt.induction with
  | block body ih =>
      rw [Stmt.rename, Stmt.renameAll_eq_map, Stmt.outline_block, Stmt.outline_block, List.map_map]
      exact congrArg (Outline.node _) (List.map_congr_left ih)
  | _ => simp_all [Stmt.rename, Stmt.outline, Expr.outline_rename, variableText_rename]

theorem programOutline_rename (keeps : ρ.KeepsNames) (program : List Stmt) :
    programOutline (program.map (Stmt.rename ρ)) = programOutline program := by
  have block := (Stmt.block program).outline_rename keeps
  rw [Stmt.rename, Stmt.renameAll_eq_map, Stmt.outline, Stmt.outline] at block
  exact congrArg (Outline.node "Program") (Outline.node.inj block).2

end Bound

/-! ## Runs of a renamed program -/

section

variable {ρ : Renaming} {keep : Nat → Bool} {before : String}

theorem Image.target?_rename (program : List Stmt) (label : Label) :
    (Image.load (program.map (Stmt.rename ρ))).target? label =
      (Image.load program).target? label := by
  have same : ∀ index found,
      collect index found (program.map (Stmt.rename ρ)) = collect index found program := by
    induction program with
    | nil => exact fun _ _ => rfl
    | cons s ss ih =>
        intro index found
        cases s <;> exact ih _ _
  rw [target?, target?, load, load, same]

theorem Image.code_rename (program : List Stmt) (pc : Nat) :
    (Image.load (program.map (Stmt.rename ρ))).code[pc]? =
      (Image.load program).code[pc]?.map (Stmt.rename ρ) := by
  simp [load]

namespace Machine

/-- Whether a machine is another one in a world that is seen through a renaming. -/
structure Seen (ρ : Renaming) (keep : Nat → Bool) (before : String) (m m' : Machine) : Prop where
  pc : m'.pc = m.pc
  last : m'.last = m.last
  world : World.Seen ρ keep before m.world m'.world

end Machine

/-- Whether a step gives what another one gives, seen through a renaming. -/
def Progress.Seen (ρ : Renaming) (keep : Nat → Bool) (before : String) : Progress → Progress → Prop
  | .running m, .running m' => m.Seen ρ keep before m'
  | .stopped result w, .stopped result' w' =>
      Outcome.Seen ρ keep before ((result, w) : Outcome Value) (result', w')
  | _, _ => False

namespace Machine

variable {m m' : Machine}

theorem Seen.settled (seen : m.Seen ρ keep before m') {o o' : Outcome Value}
    (outcomes : o.Seen ρ keep before o') : (m.settled o).Seen ρ keep before (m'.settled o') := by
  obtain ⟨result, w⟩ := o
  obtain ⟨result', w'⟩ := o'
  obtain ⟨rfl, worlds⟩ := outcomes
  cases result with
  | ok x => exact ⟨congrArg (· + 1) seen.pc, rfl, worlds⟩
  | error f => exact ⟨rfl, worlds⟩

theorem Seen.jump {image image' : Image} (seen : m.Seen ρ keep before m') {target : Label}
    (same : image'.target? target = image.target? target) :
    (m.jump image target).Seen ρ keep before (m'.jump image' target) := by
  rw [Machine.jump, Machine.jump, same]
  cases image.target? target with
  | some index => exact ⟨rfl, seen.last, seen.world⟩
  | none => exact .error (by simp [Fault.kind]) seen.world

theorem Seen.advance (seen : m.Seen ρ keep before m') {w w' : World}
    (worlds : World.Seen ρ keep before w w') :
    (m.advance w).Seen ρ keep before (m'.advance w') :=
  ⟨congrArg (· + 1) seen.pc, seen.last, worlds⟩

theorem Seen.execute {image image' : Image} (inj : ρ.Injects keep) (seen : m.Seen ρ keep before m')
    (same : ∀ label, image'.target? label = image.target? label) (s : Stmt)
    (kept : ∀ v ∈ s.vars, keep v.id = true) :
    (m.execute image s).Seen ρ keep before (m'.execute image' (s.rename ρ)) := by
  cases s with
  | declare v init =>
      rw [Stmt.rename, execute_declare, execute_declare]
      refine seen.settled (init.declareAs_seen inj (fun u h => kept u ?_) (kept v ?_) seen.world)
      · exact List.mem_cons_of_mem _ h
      · exact List.mem_cons_self
  | expr e =>
      rw [Stmt.rename, execute_expr, execute_expr]
      exact seen.settled (e.eval_seen inj kept seen.world)
  | goto target => exact seen.jump (same target)
  | branch target test when =>
      have tested := test.eval_seen inj kept seen.world
      rw [Stmt.rename, Machine.execute, Machine.execute]
      cases first : test.eval m.world with
      | mk result w =>
      cases second : (test.rename ρ).eval m'.world with
      | mk result' w' =>
      rw [first, second] at tested
      obtain ⟨rfl, worlds⟩ := tested
      cases result with
      | error f => exact ⟨rfl, worlds⟩
      | ok x =>
          cases x with
          | bool b =>
              show Progress.Seen _ _ _ (if b = when then _ else _) (if b = when then _ else _)
              split
              · have tested : Machine.Seen ρ keep before { m with world := w }
                    { m' with world := w' } := ⟨seen.pc, seen.last, worlds⟩
                exact tested.jump (same target)
              · exact seen.advance worlds
          | _ => exact .error (by simp [Fault.kind]) worlds
  | label here => exact seen.advance seen.world
  | _ => exact .error (by simp [Fault.kind]) seen.world

/-- A step of a renamed program gives what the step of the program gives. -/
theorem Seen.step (inj : ρ.Injects keep) (seen : m.Seen ρ keep before m') {program : List Stmt}
    (kept : ∀ v ∈ Stmt.varsOf program, keep v.id = true) :
    (m.step (.load program)).Seen ρ keep before
      (m'.step (.load (program.map (Stmt.rename ρ)))) := by
  rw [Machine.step, Machine.step, Image.code_rename, seen.pc]
  cases found : (Image.load program).code[m.pc]? with
  | none => exact ⟨congrArg Except.ok seen.last, seen.world⟩
  | some s =>
      have member : s ∈ program := by
        rw [Image.load, List.getElem?_toArray] at found
        exact List.mem_of_getElem? found
      exact seen.execute inj (Image.target?_rename program) s fun v inside =>
        kept v (Stmt.mem_varsOf.2 ⟨s, member, inside⟩)

/-- A renamed program gives what the program gives, after as many steps. -/
theorem Seen.run (inj : ρ.Injects keep) {program : List Stmt}
    (kept : ∀ v ∈ Stmt.varsOf program, keep v.id = true) (fuel : Nat)
    (seen : m.Seen ρ keep before m') :
    RunSeen ρ keep before (m.run (.load program) fuel)
      (m'.run (.load (program.map (Stmt.rename ρ))) fuel) := by
  induction fuel generalizing m m' with
  | zero => trivial
  | succ fuel ih =>
      have first := seen.step inj kept
      rw [Machine.run, Machine.run]
      cases here : m.step (.load program) with
      | running next =>
          cases there : m'.step (.load (program.map (Stmt.rename ρ))) with
          | running next' =>
              rw [here, there] at first
              exact ih first
          | stopped result' w' =>
              rw [here, there] at first
              exact first.elim
      | stopped result w =>
          cases there : m'.step (.load (program.map (Stmt.rename ρ))) with
          | running next' =>
              rw [here, there] at first
              exact first.elim
          | stopped result' w' =>
              rw [here, there] at first
              exact first

end Machine

/-- A renamed program goes as the program does, in a world that is seen through the renaming. -/
theorem runProgram_seen (inj : ρ.Injects keep) {program : List Stmt}
    (kept : ∀ v ∈ Stmt.varsOf program, keep v.id = true) (fuel : Nat) {w w' : World}
    (seen : World.Seen ρ keep before w w') :
    RunSeen ρ keep before (runProgram fuel program w)
      (runProgram fuel (program.map (Stmt.rename ρ)) w') :=
  Machine.Seen.run inj kept fuel ⟨rfl, rfl, seen⟩

end

/-! ## What is left after a run -/

/-- An outcome with the store cut down to the top-level variables of a chain. -/
def Outcome.pruned {α : Type} (chain : List Submission) (o : Outcome α) : Outcome α :=
  (o.1, { o.2 with store := o.2.store.prune chain })

section

variable {first target : Nat} {chain : List Submission}

/-- Top-level variables below the first number that moves stay as they are. -/
theorem Store.prune_shift (le : first ≤ target) (low : ∀ v ∈ chainVariables chain, v.id < first)
    (s : Store) : (s.view (.shift first target) fun _ => true).prune chain = s.prune chain := by
  have vars : chainVariables chain =
      (chainVariables chain).map (Renaming.shift first target).var :=
    (Bound.map_eq_self fun v member => Bound.Renaming.shift_of_lt (low v member)).symm
  have slots := Store.prune_view (Renaming.injects_shift le fun _ => true) s vars fun _ _ => rfl
  refine congrArg Store.mk (slots.trans (Bound.map_eq_self fun slot member => ?_))
  exact Renaming.shift_slot (Variable.lt_of_any low (List.mem_filter.1 member).2)

/-- A world is seen through a shift as it is, if its variables are below it. -/
theorem World.seen_shift {w : World} (low : ∀ v ∈ w.store.symbols, v.id < first) :
    World.Seen (.shift first target) (fun _ => true) "" w w where
  store := (Store.view_of_low low).symm
  input := rfl
  output := String.empty_append.symm
  sink := fun written text => by rw [String.empty_append]
  draws := rfl

theorem Outcome.pruned_eq_of_seen {α : Type} (le : first ≤ target)
    (low : ∀ v ∈ chainVariables chain, v.id < first) {o o' : Outcome α}
    (seen : o.Seen (.shift first target) (fun _ => true) "" o') :
    o'.pruned chain = o.pruned chain := by
  obtain ⟨result, w⟩ := o
  obtain ⟨result', w'⟩ := o'
  obtain ⟨same, store, input, output, sink, draws⟩ := seen
  have result_eq : result' = result := same.trans (Renaming.shift_result _ _ _)
  have store_eq : w'.store.prune chain = w.store.prune chain := by
    rw [store]
    exact Store.prune_shift le low w.store
  have output_eq : w'.output = w.output := by
    rw [← String.empty_append (s := w'.output)]
    exact output.symm
  have sink_eq : w'.sink = w.sink := by
    refine congrArg Sink.mk (funext fun written => funext fun text => ?_)
    exact (sink written text).trans (by rw [String.empty_append])
  have world_eq : ({ w' with store := w'.store.prune chain } : World) =
      { w with store := w.store.prune chain } := by
    rw [store_eq, input, output_eq, sink_eq, draws]
  exact Prod.ext result_eq world_eq

theorem RunSeen.pruned (le : first ≤ target)
    (low : ∀ v ∈ chainVariables chain, v.id < first) {run run' : Option (Outcome Value)}
    (seen : RunSeen (.shift first target) (fun _ => true) "" run run') :
    run'.map (Outcome.pruned chain) = run.map (Outcome.pruned chain) := by
  match run, run' with
  | some o, some o' => exact congrArg some (Outcome.pruned_eq_of_seen le low seen)
  | none, none => rfl
  | some _, none => exact seen.elim
  | none, some _ => exact seen.elim

end

/-! ## Lowering again -/

namespace Bound

/-- Whether lowering from another number changes nothing but the numbers of hidden variables, and
nothing that is seen of a run. -/
structure Stmt.Relowers (s : Stmt) (first target : Nat) : Prop where
  /-- The program is the same with its hidden variables shifted. -/
  program : (lower s target).program =
    (lower s first).program.map (Stmt.rename (.shift first target))
  /-- The variables that are shifted are the hidden ones; the variables of the statement are not. -/
  mentions : ∀ v ∈ Stmt.varsOf (lower s first).program,
    (v ∈ s.vars ∧ (Renaming.shift first target).var v = v) ∨
      ∃ id, first ≤ id ∧ v = boundVariable id ∧
        (Renaming.shift first target).var v = boundVariable (id + (target - first))
  labels : (lower s target).labels = (lower s first).labels
  printed : (programOutline (lower s target).program).render =
    (programOutline (lower s first).program).render
  /-- From a store with lower numbers, each number of steps leads to the same result, output and
  streams, and to the same store without hidden variables. -/
  runs : ∀ chain : List Submission, (∀ v ∈ chainVariables chain, v.id < first) →
    ∀ w : World, (∀ v ∈ w.store.symbols, v.id < first) → ∀ fuel,
      (runProgram fuel (lower s target).program w).map (Outcome.pruned chain) =
        (runProgram fuel (lower s first).program w).map (Outcome.pruned chain)

theorem Stmt.lower_shift (s : Stmt) {first : Nat} (ids : s.IdsBelow first) (target : Nat) :
    (lower s target).program = (lower s first).program.map (Stmt.rename (.shift first target)) ∧
      (lower s target).labels = (lower s first).labels := by
  have counts : Counts (.shift first target) first := fun _ => Renaming.shift_succ
  have start : Supply.rename (.shift first target) ⟨1, first⟩ = ⟨1, target⟩ := by
    simp [Supply.rename, Renaming.shift]
  have same : s.rename (.shift first target) = s :=
    s.rename_eq_self fun v member => Renaming.shift_of_lt (ids v member)
  have above : first ≤ (⟨1, first⟩ : Supply).id := Nat.le_refl first
  have code := s.code_rename Renaming.keepsNames_shift counts above
  have after := s.supplyAfter_rename counts above
  rw [start, same] at code after
  refine ⟨?_, ?_⟩
  · rw [lower_program, lower_program, code]
  · show (s.supplyAfter ⟨1, target⟩).label - 1 = (s.supplyAfter ⟨1, first⟩).label - 1
    rw [after]
    rfl

theorem Stmt.relowers (s : Stmt) {first target : Nat} (le : first ≤ target)
    (ids : s.IdsBelow first) : s.Relowers first target := by
  obtain ⟨program, labels⟩ := s.lower_shift ids target
  refine ⟨program, ?_, labels, ?_, ?_⟩
  · intro v member
    rw [lower_program] at member
    rcases s.vars_code _ member with own | ⟨id, above, -, rfl⟩
    · exact .inl ⟨own, Renaming.shift_of_lt (ids v own)⟩
    · refine .inr ⟨id, above, rfl, ?_⟩
      have moved : (Renaming.shift first target).id id = id + (target - first) := by
        have high : ¬ id < first := Nat.not_lt.2 above
        simp only [Renaming.shift, high, if_false]
        omega
      rw [rename_boundVariable Renaming.keepsNames_shift, moved]
  · rw [program, programOutline_rename Renaming.keepsNames_shift]
  · intro chain low w lowStore fuel
    have kept : ∀ v ∈ Stmt.varsOf (lower s first).program, true = true := fun _ _ => rfl
    have seen := runProgram_seen (Renaming.injects_shift le fun _ => true) kept fuel
      (World.seen_shift lowStore)
    rw [← program] at seen
    exact RunSeen.pruned le low seen

end Bound

end ScriptLang
