/-
# ScriptLang.Proofs.Naming -- names of variables do not matter

Variables are told apart by their numbers once a program is bound.  So if the
variables of a program get other names, different ones for different variables
and none the name of a function, nothing changes but the names in the store.  The
new names may be those of types, since types and variables are looked up apart,
and may be the name of the hidden variable that holds the upper bound of a
counting loop, since that is never looked up.

A fault could quote a name: that of a variable without a value.  There is none,
because what is bound without a problem has values for its variables when it
uses them.
-/
import ScriptLang.Proofs.Respelling
import ScriptLang.Proofs.Scoping

namespace ScriptLang

set_option autoImplicit false

open ScriptLang.Bound (Binder Stmt Submission)

/-! ## Trees and worlds under other names -/

namespace Syntax.Tree

/-- A tree with its variables under other names. -/
def respell (r : String → String) (t : Tree) : Tree :=
  { t with root := { t.root with statements := t.root.statements.map (Stmt.respell r) } }

/-- The names of the variables of a tree. -/
def names (t : Tree) : List String := Stmt.namesOf t.root.statements

end Syntax.Tree

/-- A store with its variables under other names. -/
def Store.respell (r : String → String) (s : Store) : Store :=
  ⟨s.slots.map fun slot => { slot with symbol.name := r slot.symbol.name }⟩

/-- A world with its variables under other names. -/
def World.respell (r : String → String) (w : World) : World := { w with store := w.store.respell r }

/-- Other names under the same numbers. -/
def Renaming.ofNames (r : String → String) : Renaming := ⟨fun i => i, r⟩

variable {r : String → String}

theorem Renaming.injects_ofNames (keep : Nat → Bool) : (Renaming.ofNames r).Injects keep :=
  fun _ _ _ _ same => same

namespace Store

theorem view_ofNames (s : Store) : (s.view (.ofNames r) fun _ => true) = s.respell r := by
  rw [view, List.filter_true]
  rfl

theorem below_respell (s : Store) (c : Nat) : (s.respell r).below c = (s.below c).respell r := by
  unfold below respell retain
  dsimp only
  rw [List.filter_map]
  rfl

end Store

namespace World

theorem seen_respell (w : World) (c : Nat) :
    World.Seen (.ofNames r) (fun _ => true) "" (w.below c) ((w.respell r).below c) where
  store := (w.store.below_respell c).trans (Store.view_ofNames _).symm
  input := rfl
  output := String.empty_append.symm
  sink := fun written text => by rw [String.empty_append]; rfl
  draws := rfl

/-- Streams that are seen without a text before them are the same. -/
theorem Seen.eq {ρ : Renaming} {keep : Nat → Bool} {w w' : World} (seen : World.Seen ρ keep "" w w') :
    w' = { w with store := w.store.view ρ keep } := by
  have output : w'.output = w.output := by rw [seen.output, String.empty_append]
  have sink : w'.sink = w.sink := by
    refine congrArg Sink.mk (funext fun written => funext fun text => ?_)
    exact (seen.sink written text).trans (by rw [String.empty_append])
  calc w' = ⟨w'.store, w'.input, w'.output, w'.sink, w'.draws⟩ := rfl
    _ = { w with store := w.store.view ρ keep } := by
        rw [seen.store, seen.input, output, sink, seen.draws]

end World

/-! ## Binding -/

theorem Scope.name_of_overloads {s : Scope} {name : String} {f : Function}
    (member : f ∈ s.overloads name) : f.name = name := by
  unfold overloads at member
  cases found : (s.frames.map (·.overloads name)).find? (!·.isEmpty) with
  | none =>
      rw [found] at member
      cases member
  | some fs =>
      rw [found] at member
      obtain ⟨frame, -, rfl⟩ := List.mem_map.1 (List.mem_of_find?_eq_some found)
      exact of_decide_eq_true (List.mem_filter.1 member).2

/-- The functions that a program can call before it declares anything are built in. -/
theorem function?_eq_none {name : String} (other : ∀ b ∈ Builtin.all, name ≠ b.name) :
    Scope.builtins.push.function? name = none := by
  refine List.head?_eq_none_iff.2 (List.eq_nil_iff_forall_not_mem.2 ?_)
  intro f member
  have builtin : f ∈ Scope.builtins.functions := Scope.mem_functions_of_overloads member
  obtain ⟨b, rfl⟩ := builtins_functions f builtin
  refine other b ?_ (Scope.name_of_overloads member).symm
  cases b <;> decide

section

variable {t : Syntax.Tree} (free : ∀ a ∈ t.names, ∀ b ∈ Builtin.all, r a ≠ b.name)

include free

theorem Binder.mirrors_atStart : Binder.Mirrors (.ofNames r) (· ∈ t.names) 0 (.atStart [] 0)
    (.atStart [] 0) where
  scope := rfl
  known := fun v member => by
    have none : v ∈ Scope.builtins.push.vars := member
    rw [Scope.vars_push, builtins_vars] at none
    cases none
  free := fun name here _ => function?_eq_none (free name here)
  nextId := rfl
  above := Nat.le_refl _
  clean := fun _ => rfl
  same := fun _ => rfl

variable (clean : (Attempt.bind [] 0 t).diagnostics = [])
  (inj : ∀ a ∈ t.names, ∀ b ∈ t.names, r a = r b → a = b)

include clean inj

/-- The tree under other names binds to the same statements under those names. -/
theorem mirrors_respell : Bound.MirrorsAll (.ofNames r) (· ∈ t.names) 0
    (Bound.bindStmts t.root.statements (.atStart [] 0))
    (Bound.bindStmts (t.respell r).root.statements (.atStart [] 0)) := by
  have separates : (Renaming.ofNames r).Separates (· ∈ t.names) :=
    fun a b inA inB same => inj a inA b inB same
  exact Bound.mirrors_all separates (fun _ _ => rfl) (fun _ member => member)
    (Binder.mirrors_atStart free) (.inr (Attempt.problems_of_clean clean))

theorem clean_respell : (Attempt.bind [] 0 (t.respell r)).diagnostics = [] := by
  have text : t.diagnostics = [] := (List.append_eq_nil_iff.1 clean).1
  have bound := (mirrors_respell free clean inj).after.clean (Attempt.problems_of_clean clean)
  show t.diagnostics ++ ((Bound.bindStmts (t.respell r).root.statements
    (.atStart [] 0)).2.problems.map _ ++ []) = []
  rw [text, bound]
  rfl

theorem nextId_respell : (Attempt.bind [] 0 (t.respell r)).nextId = (Attempt.bind [] 0 t).nextId :=
  (mirrors_respell free clean inj).after.nextId

theorem chainVariables_respell : chainVariables (Attempt.bind [] 0 (t.respell r)).chain =
    (chainVariables (Attempt.bind [] 0 t).chain).map (Renaming.ofNames r).var := by
  have declared : (Attempt.bind [] 0 (t.respell r)).submission.vars =
      (Attempt.bind [] 0 t).submission.vars.map (Renaming.ofNames r).var :=
    congrArg (fun scope : Scope => scope.declared) (mirrors_respell free clean inj).after.scope
  rw [Attempt.chain, Attempt.chain, chainVariables_cons, chainVariables_cons, declared]
  rfl

/-! ## Running -/

omit free inj in
/-- A program on an empty chain does not come to a variable without a value. -/
theorem not_quotes_of_clean {fuel : Nat} {w : World} {o : Outcome Value}
    (ended : runProgram fuel (Attempt.bind [] 0 t).lowered.program w = some o) : ¬ Quotes o.1 := by
  have program := Attempt.program_bind clean fun _ member => nomatch member
  obtain ⟨rounds, ran⟩ := program.ends_iff.2 ⟨fuel, o, ended, rfl⟩
  have none : ∀ v ∈ (Binder.atStart [] 0).scope.vars, v.id ∈ ([] : List Nat) := by
    intro v member
    have inBuiltins : v ∈ Scope.builtins.push.vars := member
    rw [Scope.vars_push, builtins_vars] at inBuiltins
    cases inBuiltins
  have inScope : Stmt.ScopedAll [] (Attempt.boundBody [] 0 t) :=
    Bound.bindStmts_scoped (fun s _ _ => Bound.bindStmt_scoped s) none
  have defined := Stmt.interpretAll_defined (fun s _ _ => s.interpret_defined) inScope .void
    (w := w.below (Attempt.bind [] 0 t).nextId) (fun _ member => nomatch member) _ ran
  rintro ⟨f, fault, kind⟩
  exact defined.fault f fault kind

/-- What is left of two worlds that are alike up to names is alike up to names. -/
theorem finished_respell {w w' : World}
    (seen : World.Seen (.ofNames r) (fun _ => true) "" (w.below (Attempt.bind [] 0 t).nextId)
      (w'.below (Attempt.bind [] 0 (t.respell r)).nextId)) :
    { w' with store := w'.store.prune (Attempt.bind [] 0 (t.respell r)).chain } =
      { w with store := w.store.prune (Attempt.bind [] 0 t).chain }.respell r := by
  have store : w'.store.prune (Attempt.bind [] 0 (t.respell r)).chain =
      (w.store.prune (Attempt.bind [] 0 t).chain).respell r := by
    have low := Attempt.low_bind clean fun _ member => nomatch member
    have low' := Attempt.low_bind (clean_respell free clean inj) fun _ member => nomatch member
    have below : w'.store.below (Attempt.bind [] 0 (t.respell r)).nextId =
      (w.store.below (Attempt.bind [] 0 t).nextId).view (.ofNames r) fun _ => true := seen.store
    rw [← Store.prune_below w'.store low', below, ← Store.prune_below w.store low]
    exact congrArg Store.mk (Store.prune_view (Renaming.injects_ofNames fun _ => true) _
      (chainVariables_respell free clean inj) fun _ _ => rfl)
  rw [store]
  exact congrArg (fun rest : World =>
    { rest with store := (w.store.prune (Attempt.bind [] 0 t).chain).respell r }) seen.eq

end

namespace Session

/-- Variables may have any names: a program without problems still has none if its variables get
other names, different ones for different variables and none the name of a function.  Then it stops
on the same inputs, gives the same value or fault, reads, writes and draws the same, and leaves the
same store under the other names. -/
theorem submit_respell {t : Syntax.Tree} (clean : (Attempt.bind [] 0 t).diagnostics = [])
    {r : String → String} (inj : ∀ a ∈ t.names, ∀ b ∈ t.names, r a = r b → a = b)
    (free : ∀ a ∈ t.names, ∀ b ∈ Builtin.all, r a ≠ b.name) :
    (Attempt.bind [] 0 (t.respell r)).diagnostics = [] ∧
      ∀ w : World,
        ((∃ fuel answer, (start w).submit fuel t = some answer) ↔
          ∃ fuel answer, (start (w.respell r)).submit fuel (t.respell r) = some answer) ∧
        ∀ fuel fuel' reply reply' s s', (start w).submit fuel t = some (reply, s) →
          (start (w.respell r)).submit fuel' (t.respell r) = some (reply', s') →
            reply' = reply ∧ s'.world = s.world.respell r := by
  have clean' := clean_respell free clean inj
  have nextId := nextId_respell free clean inj
  have program := Attempt.program_bind clean fun _ member => nomatch member
  have program' : (Attempt.bind [] 0 (t.respell r)).Program
      ((Attempt.boundBody [] 0 t).map (Stmt.rename (.ofNames r))) := by
    rw [← (mirrors_respell free clean inj).body]
    exact Attempt.program_bind clean' fun _ member => nomatch member
  have injects : (Renaming.ofNames r).Injects fun _ => true := Renaming.injects_ofNames _
  refine ⟨clean', fun w => ?_⟩
  have seen : World.Seen (.ofNames r) (fun _ => true) "" (w.below (Attempt.bind [] 0 t).nextId)
      ((w.respell r).below (Attempt.bind [] 0 (t.respell r)).nextId) := by
    rw [nextId]
    exact w.seen_respell _
  constructor
  · rw [answered_iff_stops (s := start w) clean, answered_iff_stops (s := start (w.respell r)) clean']
    exact program.stops_iff program' injects seen
  intro fuel fuel' reply reply' s s' submitted submitted'
  obtain ⟨o, ended, answer⟩ := run_of_submit (s := start w) clean submitted
  obtain ⟨o', ended', answer'⟩ := run_of_submit (s := start (w.respell r)) clean' submitted'
  obtain ⟨results, worlds⟩ := program.runs_seen program' injects seen ended ended'
  have renamed : o'.1 = (Renaming.ofNames r).result o.1 := results
  have same : o'.1 = o.1 :=
    renamed.trans (Renaming.result_eq (not_quotes_of_clean clean ended))
  have world := congrArg (fun answer : Reply × Session => answer.2.world) answer
  have world' := congrArg (fun answer : Reply × Session => answer.2.world) answer'
  dsimp only at world world'
  rw [finish_world] at world world'
  constructor
  · calc reply' = .ofResult o'.1 := congrArg Prod.fst answer'
      _ = .ofResult o.1 := by rw [same]
      _ = reply := (congrArg Prod.fst answer).symm
  · rw [world, world']
    exact finished_respell free clean inj worlds

/-- A program that adds up. -/
def adding : Syntax.Tree :=
  .ofText "var mut sum = 0; for i = 1 to 3 \x7b sum += i; print(sum) \x7d var last = sum; last"

/-- Names for its variables: those of the hidden bound, of a type and of another variable. -/
def addingNames : String → String
  | "sum" => "upperBound"
  | "i" => "int"
  | "last" => "sum"
  | name => name

/-- The program that adds up does so under other names. -/
theorem adding_submit_respell : (Attempt.bind [] 0 (adding.respell addingNames)).diagnostics = [] ∧
    ∃ reply s s', (start (.start [] (.ofSeed 0))).submit 100 adding = some (reply, s) ∧
      (start (.start [] (.ofSeed 0))).submit 100 (adding.respell addingNames) = some (reply, s') ∧
      s'.world = s.world.respell addingNames := by
  have stops : answers (fun _ _ => true)
      ((start (.start [] (.ofSeed 0))).submit 100 adding) = true := by
    decide +kernel
  have stops' : answers (fun _ _ => true)
      ((start (.start [] (.ofSeed 0))).submit 100 (adding.respell addingNames)) = true := by
    decide +kernel
  obtain ⟨x, s, submitted, -⟩ := exists_value stops
  obtain ⟨y, s', submitted', -⟩ := exists_value stops'
  have clean : (Attempt.bind [] 0 adding).diagnostics = [] := by
    obtain ⟨-, refused, -⟩ | ⟨w, clean, -⟩ := submit_cases submitted
    · cases refused
    · exact clean
  have names : adding.names = ["sum", "i", "sum", "sum", "i", "sum", "last", "sum", "last"] := by
    decide +kernel
  have inj : ∀ a ∈ adding.names, ∀ b ∈ adding.names, addingNames a = addingNames b → a = b := by
    rw [names]
    decide
  have free : ∀ a ∈ adding.names, ∀ b ∈ Builtin.all, addingNames a ≠ b.name := by
    rw [names]
    decide
  obtain ⟨clean', alike⟩ := submit_respell clean inj free
  obtain ⟨same, world⟩ := (alike (.start [] (.ofSeed 0))).2 100 100 _ _ s s' submitted submitted'
  rw [same] at submitted'
  exact ⟨clean', _, s, s', submitted, submitted', world⟩

end Session

end ScriptLang
