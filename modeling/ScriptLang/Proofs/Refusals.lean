/-
# ScriptLang.Proofs.Refusals -- refused submissions do not show

A submission that is refused leaves the chain, the store and the random words as
they are, but not the counter: once a submission has joined, the numbers that a
refused one took are not given back.  So everything after it is bound under
higher numbers.

Two sessions that differ in this way are `Moved`: one is the other under numbers
that are shifted from some number on.  Whatever is submitted to both is bound to
the same statements under shifted numbers, has the same diagnostics, stops in one
if and only if it stops in the other, with the same answer, and leaves sessions
that are moved again (`Moved.stops_iff`, `Moved.submit`).  So the two give the same
answers forever (`Moved.gives_iff`), and a refused submission can be put into a
session, or taken out of it, without a change in any other answer.
-/
import ScriptLang.Proofs.Respelling

namespace ScriptLang

set_option autoImplicit false

open ScriptLang.Bound (Stmt Submission Binder)

/-! ## Requests and answers -/

/-- What a session can be asked for. -/
inductive Request where
  /-- Run a text, which reads from an input and writes to a stream of its own. -/
  | submit (text : String) (input : List UInt8) (sink : Sink)
  | reset

/-- What a store lists: names, types, whether they can be assigned to, and values. -/
abbrev Entries := List (String × Ty × Bool × Value)

/-- What can be seen of a request: the reply, the text that was written, and the store after it. -/
inductive Answer where
  | replied (reply : Reply) (output : String) (store : Entries)
  | cleared (store : Entries)

namespace Session

/-- A session with other streams, and nothing written yet. -/
def supply (s : Session) (input : List UInt8) (sink : Sink) : Session :=
  { s with world := { s.world with input := input, output := "", sink := sink } }

/-- Whether a session gives an answer to a request, and goes on as another one.  A submission that
does not stop has no answer. -/
def Serves (s : Session) : Request → Answer → Session → Prop
  | .submit text input sink, answer, s' =>
      ∃ fuel reply, (s.supply input sink).submit fuel (.ofText text) = some (reply, s') ∧
        answer = .replied reply s'.world.output s'.world.store.entries
  | .reset, answer, s' => s' = s.reset ∧ answer = .cleared s'.world.store.entries

/-- Whether a session gives answers to one request after the other, and goes on as another one. -/
def Plays (s : Session) : List Request → List Answer → Session → Prop
  | [], [], s' => s' = s
  | request :: requests, answer :: answers, s' =>
      ∃ next, s.Serves request answer next ∧ next.Plays requests answers s'
  | _, _, _ => False

/-- Whether a session gives answers to one request after the other. -/
def Gives (s : Session) (requests : List Request) (answers : List Answer) : Prop :=
  ∃ s', s.Plays requests answers s'

theorem gives_cons {s : Session} {request : Request} {requests : List Request} {answer : Answer}
    {answers : List Answer} :
    s.Gives (request :: requests) (answer :: answers) ↔
      ∃ next, s.Serves request answer next ∧ next.Gives requests answers := by
  constructor
  · rintro ⟨s', next, served, rest⟩
    exact ⟨next, served, s', rest⟩
  · rintro ⟨next, served, s', rest⟩
    exact ⟨s', next, served, rest⟩

/-- A session answers a request in one way. -/
theorem Serves.unique {s t t' : Session} {request : Request} {answer answer' : Answer}
    (first : s.Serves request answer t) (second : s.Serves request answer' t') :
    answer' = answer ∧ t' = t := by
  cases request with
  | reset =>
      obtain ⟨rfl, rfl⟩ := first
      obtain ⟨rfl, rfl⟩ := second
      exact ⟨rfl, rfl⟩
  | submit text input sink =>
      obtain ⟨fuel, reply, submitted, rfl⟩ := first
      obtain ⟨fuel', reply', submitted', rfl⟩ := second
      have same : (reply', t') = (reply, t) := by
        by_cases clean : ((s.supply input sink).attempt (.ofText text)).diagnostics = []
        · obtain ⟨o, ended, same⟩ := run_of_submit clean submitted
          obtain ⟨o', ended', same'⟩ := run_of_submit clean submitted'
          rw [same, same', Machine.run_unique ended ended']
        · obtain ⟨-, rfl, rfl⟩ | ⟨w, none, -⟩ := submit_cases submitted
          · obtain ⟨-, rfl, rfl⟩ | ⟨w, none, -⟩ := submit_cases submitted'
            · rfl
            · exact absurd none clean
          · exact absurd none clean
      cases same
      exact ⟨rfl, rfl⟩

/-- After some requests that are answered, a session goes on from where it has come. -/
theorem Plays.gives_append {s mid : Session} {before : List Request} {firsts : List Answer}
    (reached : s.Plays before firsts mid) (after : List Request) (answers : List Answer) :
    s.Gives (before ++ after) answers ↔
      ∃ lasts, answers = firsts ++ lasts ∧ mid.Gives after lasts := by
  induction before generalizing s firsts answers with
  | nil =>
      cases firsts with
      | cons _ _ => exact reached.elim
      | nil =>
          cases reached
          exact ⟨fun gives => ⟨answers, rfl, gives⟩, fun ⟨lasts, same, gives⟩ => same ▸ gives⟩
  | cons request requests ih =>
      cases firsts with
      | nil => exact reached.elim
      | cons first firsts =>
      obtain ⟨next, served, rest⟩ := reached
      cases answers with
      | nil =>
          constructor
          · rintro ⟨s', played⟩
            exact played.elim
          · rintro ⟨lasts, same, -⟩
            cases same
      | cons answer answers =>
          rw [List.cons_append, gives_cons]
          constructor
          · rintro ⟨next', served', gives⟩
            obtain ⟨rfl, rfl⟩ := served.unique served'
            obtain ⟨lasts, rfl, later⟩ := (ih rest answers).1 gives
            exact ⟨lasts, rfl, later⟩
          · rintro ⟨lasts, same, later⟩
            obtain ⟨rfl, rfl⟩ := List.cons.inj same
            exact ⟨next, served, (ih rest _).2 ⟨lasts, rfl, later⟩⟩

theorem Serves.reachable {s s' : Session} {request : Request} {answer : Answer}
    (served : s.Serves request answer s') (reachable : s.Reachable) : s'.Reachable := by
  cases request with
  | reset =>
      obtain ⟨rfl, -⟩ := served
      exact .reset reachable
  | submit text input sink =>
      obtain ⟨fuel, reply, submitted, -⟩ := served
      exact .submit (.streams reachable (s.supply input sink).world rfl) submitted

theorem Plays.reachable {s s' : Session} {requests : List Request} {answers : List Answer}
    (played : s.Plays requests answers s') (reachable : s.Reachable) : s'.Reachable := by
  induction requests generalizing s answers with
  | nil =>
      cases answers with
      | nil =>
          cases played
          exact reachable
      | cons _ _ => exact played.elim
  | cons request requests ih =>
      cases answers with
      | nil => exact played.elim
      | cons answer answers =>
          obtain ⟨next, served, rest⟩ := played
          exact ih rest (served.reachable reachable)

end Session

/-! ## Shifted numbers -/

namespace Renaming

variable {first target : Nat}

theorem keepsNames_shift : (shift first target).KeepsNames := fun _ => rfl

theorem injects_shift (le : first ≤ target) (keep : Nat → Bool) :
    (shift first target).Injects keep := by
  intro i j _ _ same
  simp only [shift] at same
  split at same <;> split at same <;> omega

/-- A shift keeps the order of numbers. -/
theorem shift_lt_iff (le : first ≤ target) {i n : Nat} :
    (shift first target).id i < (shift first target).id n ↔ i < n := by
  simp only [shift]
  split <;> split <;> omega

theorem shift_add {i : Nat} (above : first ≤ i) (n : Nat) :
    (shift first target).id (i + n) = (shift first target).id i + n := by
  induction n with
  | zero => rfl
  | succ n ih => rw [← Nat.add_assoc, shift_succ (Nat.le_add_right_of_le above), ih, Nat.add_assoc]

end Renaming

namespace Store

variable {first target : Nat}

theorem entries_view (s : Store) :
    (s.view (.shift first target) fun _ => true).entries = s.entries := by
  unfold entries view
  rw [List.map_map, List.filter_true]
  rfl

theorem below_view (le : first ≤ target) (s : Store) (c : Nat) :
    (s.view (.shift first target) fun _ => true).below ((Renaming.shift first target).id c) =
      (s.below c).view (.shift first target) fun _ => true := by
  unfold below view retain
  dsimp only
  rw [List.filter_true, List.filter_true, List.filter_map]
  refine congrArg (fun slots => Store.mk (slots.map (Renaming.shift first target).slot))
    (List.filter_congr ?_)
  intro slot _
  exact decide_eq_decide.2 (Renaming.shift_lt_iff le)

theorem view_shift_self (s : Store) (first : Nat) :
    (s.view (.shift first first) fun _ => true) = s := by
  have same : (Renaming.shift first first).slot = id := by
    funext slot
    have number : (Renaming.shift first first).id slot.symbol.id = slot.symbol.id := by
      simp only [Renaming.shift]
      split <;> omega
    rw [Renaming.slot, Renaming.var, number]
    rfl
  rw [view, List.filter_true, same, List.map_id]

/-- Slots below the first number that moves stay as they are. -/
theorem view_of_low {s : Store} (low : ∀ v ∈ s.symbols, v.id < first) :
    (s.view (.shift first target) fun _ => true) = s := by
  unfold view
  rw [List.filter_true]
  refine congrArg Store.mk ((List.map_congr_left ?_).trans (List.map_id _))
  intro slot member
  exact Renaming.shift_slot (low slot.symbol (List.mem_map_of_mem member))

end Store

/-! ## Hidden variables -/

namespace Bound

mutual

/-- The number of hidden variables that a statement needs, one for each counting loop. -/
def Stmt.hidden : Stmt → Nat
  | .block body => Stmt.hiddenIn body
  | .ifThen _ yes => yes.hidden
  | .ifElse _ yes no => yes.hidden + no.hidden
  | .whileLoop _ body => body.hidden
  | .doWhile body _ => body.hidden
  | .forTo _ _ _ body => body.hidden + 1
  | .declare .. | .expr _ | .goto _ | .branch .. | .label _ => 0

def Stmt.hiddenIn : List Stmt → Nat
  | [] => 0
  | s :: ss => s.hidden + Stmt.hiddenIn ss

end

theorem Stmt.supplyAfter_id (s : Stmt) (supply : Supply) :
    (s.supplyAfter supply).id = supply.id + s.hidden := by
  induction s using Stmt.induction generalizing supply with
  | block body ih =>
      rw [supplyAfter_block, Stmt.hidden]
      induction body generalizing supply with
      | nil => rw [supplyAfterAll_nil, Stmt.hiddenIn, Nat.add_zero]
      | cons s ss ihRest =>
          rw [List.forall_mem_cons] at ih
          rw [supplyAfterAll_cons, ihRest ih.2, ih.1, Stmt.hiddenIn, Nat.add_assoc]
  | ifThen test yes ih => rw [supplyAfter_ifThen, Stmt.hidden, ih]
  | ifElse test yes no ihYes ihNo =>
      rw [supplyAfter_ifElse, Stmt.hidden]
      dsimp only
      rw [ihNo, ihYes, Nat.add_assoc]
  | whileLoop test body ih => rw [supplyAfter_whileLoop, Stmt.hidden, ih]
  | doWhile body test ih => rw [supplyAfter_doWhile, Stmt.hidden, ih]
  | forTo v lower upper body ih =>
      rw [supplyAfter_forTo, Stmt.hidden]
      dsimp only
      rw [ih, Nat.add_assoc]
  | declare v init => rw [supplyAfter_declare, Stmt.hidden, Nat.add_zero]
  | expr e => rw [supplyAfter_expr, Stmt.hidden, Nat.add_zero]
  | goto target => simp [Stmt.supplyAfter, lowerStmt, Stmt.hidden]
  | branch target test when => simp [Stmt.supplyAfter, lowerStmt, Stmt.hidden]
  | label here => simp [Stmt.supplyAfter, lowerStmt, Stmt.hidden]

theorem Stmt.hidden_rename (ρ : Renaming) (s : Stmt) : (s.rename ρ).hidden = s.hidden := by
  induction s using Stmt.induction with
  | block body ih =>
      rw [Stmt.rename, Stmt.renameAll_eq_map, Stmt.hidden, Stmt.hidden]
      induction body with
      | nil => rfl
      | cons s ss ihRest =>
          rw [List.forall_mem_cons] at ih
          rw [List.map_cons, Stmt.hiddenIn, Stmt.hiddenIn, ih.1, ihRest ih.2]
  | ifElse test yes no ihYes ihNo => rw [Stmt.rename, Stmt.hidden, Stmt.hidden, ihYes, ihNo]
  | forTo v lower upper body ih => rw [Stmt.rename, Stmt.hidden, Stmt.hidden, ih]
  | ifThen test yes ih => exact ih
  | whileLoop test body ih => exact ih
  | doWhile body test ih => exact ih
  | _ => rfl

end Bound

theorem Attempt.lowered_nextId (a : Attempt) :
    a.lowered.nextId = a.nextId + a.submission.statement.hidden := by
  rw [Attempt.lowered, Bound.lower_nextId, Bound.Stmt.supplyAfter_id]

/-! ## Sessions under shifted numbers -/

namespace Session

/-- A submission with diagnostics is refused, and takes numbers. -/
theorem submit_of_dirty {s : Session} {tree : Syntax.Tree} (dirty : (s.attempt tree).diagnostics ≠ [])
    (fuel : Nat) : s.submit fuel tree =
      some (.refused (s.attempt tree).diagnostics, s.abandon (s.attempt tree).nextId) := by
  unfold submit evaluate
  cases found : (s.attempt tree).diagnostics with
  | nil => exact absurd found dirty
  | cons d ds =>
      simp only [found]
      rfl

/-- Whether a session is another one under numbers that are shifted from `first` to `target`.  The
streams do not matter, since every submission has its own. -/
structure Moved (first target : Nat) (s s' : Session) : Prop where
  le : first ≤ target
  vars : s'.chain.map Submission.vars =
    s.chain.map fun sub => sub.vars.map (Renaming.shift first target).var
  inherited : s'.chain.head?.map Submission.diagnostics = s.chain.head?.map Submission.diagnostics
  low : ∀ v ∈ chainVariables s.chain, v.id < s.nextId
  above : first ≤ s.nextId
  nextId : s'.nextId = (Renaming.shift first target).id s.nextId
  store : s'.world.store = s.world.store.view (.shift first target) fun _ => true
  draws : s'.world.draws = s.world.draws

namespace Moved

variable {first target : Nat} {s s' : Session}

theorem supply (moved : Moved first target s s') (input : List UInt8) (sink : Sink) :
    Moved first target (s.supply input sink) (s'.supply input sink) :=
  ⟨moved.le, moved.vars, moved.inherited, moved.low, moved.above, moved.nextId, moved.store,
    moved.draws⟩

theorem chainVariables_eq (moved : Moved first target s s') :
    chainVariables s'.chain = (chainVariables s.chain).map (Renaming.shift first target).var := by
  have flat : ∀ chain : List Submission,
      chainVariables chain = (chain.map Submission.vars).reverse.flatten := by
    intro chain
    rw [chainVariables, List.flatMap_def, List.map_reverse]
  rw [flat, flat, moved.vars, List.map_flatten, List.map_reverse, List.map_map]
  rfl

theorem low' (moved : Moved first target s s') : ∀ v ∈ chainVariables s'.chain, v.id < s'.nextId := by
  intro v member
  rw [moved.chainVariables_eq] at member
  obtain ⟨u, inside, rfl⟩ := List.mem_map.1 member
  rw [moved.nextId]
  exact (Renaming.shift_lt_iff moved.le).2 (moved.low u inside)

theorem isEmpty_eq (moved : Moved first target s s') : s'.chain.isEmpty = s.chain.isEmpty := by
  have length := congrArg List.length moved.vars
  rw [List.length_map, List.length_map] at length
  rw [Bool.eq_iff_iff, List.isEmpty_iff_length_eq_zero, List.isEmpty_iff_length_eq_zero, length]

theorem scopeAfter_eq (moved : Moved first target s s') :
    Bound.scopeAfter s'.chain = (Bound.scopeAfter s.chain).rename (.shift first target) := by
  have framesOf : ∀ chain : List Submission,
      chain.map Submission.frame = (chain.map Submission.vars).map fun vs => ⟨vs, []⟩ := by
    intro chain
    rw [List.map_map]
    rfl
  have frames : (Bound.scopeAfter s'.chain).frames =
      ((Bound.scopeAfter s.chain).rename (.shift first target)).frames := by
    have builtins : Scope.builtins.frames.map (Frame.rename (.shift first target)) =
        Scope.builtins.frames := rfl
    rw [Scope.frames_rename, frames_scopeAfter, frames_scopeAfter, List.map_append, builtins,
      framesOf, framesOf, moved.vars, List.map_map, List.map_map, List.map_map]
    rfl
  obtain ⟨inner, outer⟩ := List.cons.inj frames
  cases scope : Bound.scopeAfter s'.chain
  rw [scope] at inner outer
  exact congrArg₂ Scope.mk inner outer

theorem atStart (moved : Moved first target s s') :
    Binder.Mirrors (.shift first target) (fun _ => True) first (.atStart s.chain s.nextId)
      (.atStart s'.chain s'.nextId) where
  scope := congrArg Scope.push moved.scopeAfter_eq
  known := fun _ _ => trivial
  free := fun _ _ free => free
  nextId := moved.nextId
  above := moved.above
  clean := fun _ => rfl
  same := fun _ => rfl

/-- What is submitted is bound under shifted numbers. -/
theorem bound (moved : Moved first target s s') (tree : Syntax.Tree) :
    Bound.MirrorsAll (.shift first target) (fun _ => True) first
      (Bound.bindStmts tree.root.statements (.atStart s.chain s.nextId))
      (Bound.bindStmts tree.root.statements (.atStart s'.chain s'.nextId)) := by
  have keeps : (Renaming.shift first target).KeepsNames := Renaming.keepsNames_shift
  have here : ∀ n ∈ Syntax.Stmt.namesOf tree.root.statements, True := fun _ _ => trivial
  have mirrored := Bound.mirrors_all (keeps.separates _) (fun _ => Renaming.shift_succ) here
    moved.atStart (.inl keeps)
  have same : tree.root.statements.map (Syntax.Stmt.respell (Renaming.shift first target).name) =
      tree.root.statements :=
    (List.map_congr_left fun s _ => Syntax.Stmt.respell_id s).trans (List.map_id _)
  rwa [same] at mirrored

variable (tree : Syntax.Tree)

theorem diagnostics_eq (moved : Moved first target s s') :
    (s'.attempt tree).diagnostics = (s.attempt tree).diagnostics := by
  have own := (moved.bound tree).after.same Renaming.keepsNames_shift
  show tree.diagnostics ++ ((Bound.bindStmts tree.root.statements
      (.atStart s'.chain s'.nextId)).2.problems.map _ ++
        (s'.chain.head?.map Submission.diagnostics).getD []) = _
  rw [own, moved.inherited]
  rfl

theorem attempt_nextId (moved : Moved first target s s') :
    (s'.attempt tree).nextId = (Renaming.shift first target).id (s.attempt tree).nextId ∧
      first ≤ (s.attempt tree).nextId :=
  ⟨(moved.bound tree).after.nextId, (moved.bound tree).after.above⟩

theorem statement_eq (moved : Moved first target s s') :
    (s'.attempt tree).submission.statement =
      (s.attempt tree).submission.statement.rename (.shift first target) := by
  have body := (moved.bound tree).body
  show Stmt.block (Attempt.boundBody s'.chain s'.nextId tree) =
    (Stmt.block (Attempt.boundBody s.chain s.nextId tree)).rename _
  rw [Attempt.boundBody, body, Stmt.rename, Stmt.renameAll_eq_map]

theorem lowered_nextId (moved : Moved first target s s') :
    (s'.attempt tree).lowered.nextId =
        (Renaming.shift first target).id (s.attempt tree).lowered.nextId ∧
      first ≤ (s.attempt tree).lowered.nextId := by
  obtain ⟨nextId, above⟩ := moved.attempt_nextId tree
  rw [Attempt.lowered_nextId, Attempt.lowered_nextId, Renaming.shift_add above, nextId,
    moved.statement_eq tree, Stmt.hidden_rename]
  exact ⟨rfl, Nat.le_add_right_of_le above⟩

theorem joined_vars (moved : Moved first target s s') :
    (s'.attempt tree).chain.map Submission.vars = (s.attempt tree).chain.map
      fun sub => sub.vars.map (Renaming.shift first target).var := by
  have declared : (s'.attempt tree).submission.vars =
      (s.attempt tree).submission.vars.map (Renaming.shift first target).var :=
    congrArg (fun scope : Scope => scope.declared) (moved.bound tree).after.scope
  show (s'.attempt tree).submission.vars :: s'.chain.map Submission.vars = _
  rw [declared, moved.vars]
  rfl

/-! ### Runs -/

variable {tree}

section

variable (moved : Moved first target s s') (clean : (s.attempt tree).diagnostics = [])

include moved clean

theorem clean' : (s'.attempt tree).diagnostics = [] := (moved.diagnostics_eq tree).trans clean

theorem program : (s.attempt tree).Program (Attempt.boundBody s.chain s.nextId tree) :=
  Attempt.program_bind clean moved.low

theorem program' : (s'.attempt tree).Program
    ((Attempt.boundBody s.chain s.nextId tree).map (Stmt.rename (.shift first target))) := by
  rw [← (moved.bound tree).body]
  exact Attempt.program_bind (moved.clean' clean) moved.low'

omit clean in
theorem worlds (streams : s'.world.input = s.world.input ∧ s'.world.output = s.world.output ∧
      s'.world.sink = s.world.sink) :
    World.Seen (.shift first target) (fun _ => true) "" (s.world.below (s.attempt tree).nextId)
      (s'.world.below (s'.attempt tree).nextId) where
  store := by
    show s'.world.store.below _ = _
    rw [moved.store, (moved.attempt_nextId tree).1]
    exact Store.below_view moved.le _ _
  input := streams.1
  output := by
    rw [String.empty_append]
    exact streams.2.1.symm
  sink := fun written text => by
    rw [String.empty_append]
    exact congrArg (fun sink : Sink => sink.accept written text) streams.2.2
  draws := moved.draws

/-- What is left of the top-level variables when both programs have stopped. -/
theorem pruned {w w' : World}
    (seen : World.Seen (.shift first target) (fun _ => true) "" (w.below (s.attempt tree).nextId)
      (w'.below (s'.attempt tree).nextId)) :
    w'.store.prune (s'.attempt tree).chain =
      (w.store.prune (s.attempt tree).chain).view (.shift first target) fun _ => true := by
  have low : ∀ v ∈ chainVariables (s.attempt tree).chain, v.id < (s.attempt tree).nextId :=
    Attempt.low_bind clean moved.low
  have low' : ∀ v ∈ chainVariables (s'.attempt tree).chain, v.id < (s'.attempt tree).nextId :=
    Attempt.low_bind (moved.clean' clean) moved.low'
  have vars : chainVariables (s'.attempt tree).chain =
      (chainVariables (s.attempt tree).chain).map (Renaming.shift first target).var := by
    rw [Attempt.chain, Attempt.chain, chainVariables_cons, chainVariables_cons, List.map_append]
    exact congrArg₂ (· ++ ·) moved.chainVariables_eq (List.cons.inj (moved.joined_vars tree)).1
  have store : w'.store.below (s'.attempt tree).nextId =
      (w.store.below (s.attempt tree).nextId).view (.shift first target) fun _ => true := seen.store
  rw [← Store.prune_below w'.store low', store, ← Store.prune_below w.store low]
  have slots := Store.prune_view (Renaming.injects_shift moved.le fun _ => true)
    (w.store.below (s.attempt tree).nextId) vars fun _ _ => rfl
  refine congrArg Store.mk (slots.trans ?_)
  rw [List.filter_true]

end

/-- A refused submission may have taken numbers. -/
theorem abandon (moved : Moved first target s s') {n n' : Nat} (le : s.nextId ≤ n)
    (same : n' = (Renaming.shift first target).id n) (above : first ≤ n) :
    Moved first target (s.abandon n) (s'.abandon n') := by
  unfold Session.abandon
  rw [moved.isEmpty_eq]
  split
  · exact moved
  · have low : ∀ v ∈ chainVariables s.chain, v.id < n :=
      fun v member => Nat.lt_of_lt_of_le (moved.low v member) le
    exact ⟨moved.le, moved.vars, moved.inherited, low, above, same, moved.store, moved.draws⟩

/-- A submission stops in a session if and only if it stops in one that is moved. -/
theorem stops_iff (moved : Moved first target s s')
    (streams : s'.world.input = s.world.input ∧ s'.world.output = s.world.output ∧
      s'.world.sink = s.world.sink) :
    (∃ fuel answer, s.submit fuel tree = some answer) ↔
      ∃ fuel answer, s'.submit fuel tree = some answer := by
  by_cases clean : (s.attempt tree).diagnostics = []
  · rw [answered_iff_stops clean, answered_iff_stops (moved.clean' clean)]
    exact (moved.program clean).stops_iff (moved.program' clean)
      (Renaming.injects_shift moved.le _) (moved.worlds streams)
  · have dirty' : (s'.attempt tree).diagnostics ≠ [] := by
      rw [moved.diagnostics_eq tree]
      exact clean
    exact ⟨fun _ => ⟨0, _, submit_of_dirty dirty' 0⟩, fun _ => ⟨0, _, submit_of_dirty clean 0⟩⟩

/-- Two programs that stopped alike leave sessions that are moved. -/
theorem finish (moved : Moved first target s s') (clean : (s.attempt tree).diagnostics = [])
    {o o' : Outcome Value} (seen : (o.below (s.attempt tree).nextId).Seen (.shift first target)
      (fun _ => true) "" (o'.below (s'.attempt tree).nextId)) :
    (s'.finish Reply.isValue (s'.attempt tree) o').1 = (s.finish Reply.isValue (s.attempt tree) o).1 ∧
      o'.2.output = o.2.output ∧
      Moved first target (s.finish Reply.isValue (s.attempt tree) o).2
        (s'.finish Reply.isValue (s'.attempt tree) o').2 := by
  obtain ⟨result, w⟩ := o
  obtain ⟨result', w'⟩ := o'
  obtain ⟨same, seen⟩ := seen
  have same : result' = result := same.trans (Renaming.shift_result _ _ _)
  have output : w'.output = w.output := by
    have written : w.output = "" ++ w'.output := seen.output
    rw [String.empty_append] at written
    exact written.symm
  have store := moved.pruned clean seen
  obtain ⟨nextId, above⟩ := moved.lowered_nextId tree
  have bounds : (s.attempt tree).nextId ≤ (s.attempt tree).lowered.nextId := by
    rw [Attempt.lowered_nextId]
    exact Nat.le_add_right _ _
  have grows : s.nextId ≤ (s.attempt tree).nextId := Bound.bindProgram_le _ _ tree.source _
  subst same
  cases result' with
  | error f =>
      -- the program failed, and does not join
      have after : Moved first target (s.after (s.attempt tree) w) (s'.after (s'.attempt tree) w') :=
        ⟨moved.le, moved.vars, moved.inherited, moved.low, moved.above, moved.nextId, store,
          seen.draws⟩
      exact ⟨rfl, output, after.abandon (Nat.le_trans grows bounds) nextId above⟩
  | ok x =>
      have diagnostics := (List.append_eq_nil_iff.1 clean).2
      have diagnostics' := (List.append_eq_nil_iff.1 (moved.clean' clean)).2
      refine ⟨rfl, output, moved.le, moved.joined_vars tree, ?_, ?_, above, nextId, store, seen.draws⟩
      · exact congrArg some (diagnostics'.trans diagnostics.symm)
      · intro v member
        exact Nat.lt_of_lt_of_le (Attempt.low_bind clean moved.low v member) bounds

/-- A submission has the same answer in a session and in one that is moved, and they are moved after
it. -/
theorem submit (moved : Moved first target s s')
    (streams : s'.world.input = s.world.input ∧ s'.world.output = s.world.output ∧
      s'.world.sink = s.world.sink)
    {fuel fuel' : Nat} {reply reply' : Reply} {t t' : Session}
    (submitted : s.submit fuel tree = some (reply, t))
    (submitted' : s'.submit fuel' tree = some (reply', t')) :
    reply' = reply ∧ t'.world.output = t.world.output ∧ Moved first target t t' := by
  by_cases clean : (s.attempt tree).diagnostics = []
  · obtain ⟨o, ended, same⟩ := run_of_submit clean submitted
    obtain ⟨o', ended', same'⟩ := run_of_submit (moved.clean' clean) submitted'
    have seen := (moved.program clean).runs_seen (moved.program' clean)
      (Renaming.injects_shift moved.le _) (moved.worlds streams) ended ended'
    obtain ⟨replies, output, after⟩ := moved.finish clean seen
    rw [← same, ← same'] at replies after
    refine ⟨replies, ?_, after⟩
    have world := congrArg (fun answer : Reply × Session => answer.2.world.output) same
    have world' := congrArg (fun answer : Reply × Session => answer.2.world.output) same'
    dsimp only at world world'
    rw [finish_world] at world world'
    rw [world, world']
    exact output
  · obtain ⟨-, rfl, rfl⟩ | ⟨w, none, -⟩ := submit_cases submitted
    · obtain ⟨-, rfl, rfl⟩ | ⟨w, none, -⟩ := submit_cases submitted'
      · obtain ⟨nextId, above⟩ := moved.attempt_nextId tree
        rw [moved.diagnostics_eq tree, abandon_world, abandon_world]
        refine ⟨rfl, streams.2.1, moved.abandon ?_ nextId above⟩
        exact Bound.bindProgram_le _ _ tree.source _
      · exact absurd ((moved.diagnostics_eq tree).symm.trans none) clean
    · exact absurd none clean

/-- Two sessions without submissions and variables differ in nothing. -/
theorem reset (moved : Moved first target s s') : Moved 0 0 s.reset s'.reset where
  le := Nat.le_refl _
  vars := rfl
  inherited := rfl
  low := fun _ member => nomatch member
  above := Nat.le_refl _
  nextId := rfl
  store := rfl
  draws := moved.draws

/-- A session that is moved gives the same answers. -/
theorem gives_iff (moved : Moved first target s s') (requests : List Request)
    (answers : List Answer) : s'.Gives requests answers ↔ s.Gives requests answers := by
  induction requests generalizing first target s s' answers with
  | nil =>
      cases answers with
      | nil => exact ⟨fun _ => ⟨s, rfl⟩, fun _ => ⟨s', rfl⟩⟩
      | cons _ _ => exact ⟨fun ⟨_, played⟩ => played.elim, fun ⟨_, played⟩ => played.elim⟩
  | cons request requests ih =>
  cases answers with
  | nil => exact ⟨fun ⟨_, played⟩ => played.elim, fun ⟨_, played⟩ => played.elim⟩
  | cons answer answers =>
  rw [gives_cons, gives_cons]
  cases request with
  | reset =>
      have later := ih moved.reset
      constructor
      · rintro ⟨_, ⟨rfl, rfl⟩, gives⟩
        exact ⟨s.reset, ⟨rfl, rfl⟩, (later answers).1 gives⟩
      · rintro ⟨_, ⟨rfl, rfl⟩, gives⟩
        exact ⟨s'.reset, ⟨rfl, rfl⟩, (later answers).2 gives⟩
  | submit text input sink =>
      have supplied := moved.supply input sink
      have stops : (∃ fuel answer,
          (s.supply input sink).submit fuel (.ofText text) = some answer) ↔ _ :=
        supplied.stops_iff ⟨rfl, rfl, rfl⟩
      constructor
      · rintro ⟨t', ⟨fuel', reply', submitted', rfl⟩, gives⟩
        obtain ⟨fuel, ⟨reply, t⟩, submitted⟩ := stops.2 ⟨fuel', _, submitted'⟩
        obtain ⟨rfl, output, after⟩ := supplied.submit ⟨rfl, rfl, rfl⟩ submitted submitted'
        refine ⟨t, ⟨fuel, _, submitted, ?_⟩, (ih after answers).1 gives⟩
        rw [output, after.store, Store.entries_view]
      · rintro ⟨t, ⟨fuel, reply, submitted, rfl⟩, gives⟩
        obtain ⟨fuel', ⟨reply', t'⟩, submitted'⟩ := stops.1 ⟨fuel, _, submitted⟩
        obtain ⟨rfl, output, after⟩ := supplied.submit ⟨rfl, rfl, rfl⟩ submitted submitted'
        refine ⟨t', ⟨fuel', _, submitted', ?_⟩, (ih after answers).2 gives⟩
        rw [output, after.store, Store.entries_view]

end Moved

/-! ## Refused submissions -/

/-- A session that goes on from a higher number is moved, if the shift leaves its slots alone. -/
theorem moved_next {s : Session} {n : Nat} (le : s.nextId ≤ n)
    (low : ∀ v ∈ chainVariables s.chain, v.id < s.nextId)
    (fixed : (s.world.store.view (.shift s.nextId n) fun _ => true) = s.world.store) {w : World}
    (store : w.store = s.world.store) (draws : w.draws = s.world.draws) :
    Moved s.nextId n s ⟨s.chain, n, w⟩ where
  le := le
  vars := by
    refine List.map_congr_left fun sub member => ?_
    refine ((List.map_congr_left fun v inside => ?_).trans (List.map_id _)).symm
    refine Bound.Renaming.shift_of_lt (low v ?_)
    exact List.mem_flatMap.2 ⟨sub, List.mem_reverse.2 member, inside⟩
  inherited := rfl
  low := low
  above := Nat.le_refl _
  nextId := by simp [Renaming.shift]
  store := store.trans fixed.symm
  draws := draws

/-- A refused submission moves the numbers from the counter on, if anything. -/
theorem Reachable.moved_abandon {s : Session} (reachable : s.Reachable) {n : Nat} (le : s.nextId ≤ n)
    (input : List UInt8) (sink : Sink) :
    ∃ first target, Moved first target s ((s.supply input sink).abandon n) := by
  have low := reachable.sound.below
  have chain : (s.supply input sink).chain = s.chain := rfl
  unfold Session.abandon
  rw [chain]
  by_cases empty : s.chain = []
  · refine ⟨s.nextId, s.nextId, ?_⟩
    rw [if_pos (List.isEmpty_iff.2 empty)]
    exact moved_next (Nat.le_refl _) low (Store.view_shift_self _ _) rfl rfl
  · refine ⟨s.nextId, n, ?_⟩
    rw [if_neg (fun isEmpty => empty (List.isEmpty_iff.1 isEmpty))]
    exact moved_next le low (Store.view_of_low (reachable.settled empty)) rfl rfl

/-- A refused submission does not show: put into a session at any point, it is answered with its
diagnostics, and every other request is answered as without it. -/
theorem refused_unseen {w : World} (empty : w.store = .empty) {before : List Request}
    {firsts : List Answer} {mid : Session} (reached : (start w).Plays before firsts mid)
    {text : String} (dirty : (mid.attempt (.ofText text)).diagnostics ≠ []) (input : List UInt8)
    (sink : Sink) (after : List Request) (answers : List Answer) :
    (start w).Gives (before ++ .submit text input sink :: after) answers ↔
      ∃ lasts, answers = firsts ++ .replied (.refused (mid.attempt (.ofText text)).diagnostics) ""
          mid.world.store.entries :: lasts ∧
        (start w).Gives (before ++ after) (firsts ++ lasts) := by
  have reachable := reached.reachable (.start w empty)
  have served : mid.Serves (.submit text input sink)
      (.replied (.refused (mid.attempt (.ofText text)).diagnostics) "" mid.world.store.entries)
      ((mid.supply input sink).abandon (mid.attempt (.ofText text)).nextId) := by
    refine ⟨0, _, submit_of_dirty (s := mid.supply input sink) dirty 0, ?_⟩
    rw [abandon_world]
    rfl
  obtain ⟨first, target, moved⟩ := reachable.moved_abandon
    (Bound.bindProgram_le mid.chain mid.nextId (Syntax.Tree.ofText text).source _) input sink
  have others : ∀ lasts,
      (start w).Gives (before ++ after) (firsts ++ lasts) ↔ mid.Gives after lasts := by
    intro lasts
    rw [reached.gives_append]
    exact ⟨fun ⟨_, same, gives⟩ => List.append_cancel_left same ▸ gives, fun gives => ⟨_, rfl, gives⟩⟩
  rw [reached.gives_append]
  constructor
  · rintro ⟨lasts, rfl, gives⟩
    cases lasts with
    | nil => exact gives.elim fun _ played => played.elim
    | cons answer lasts =>
        obtain ⟨next, served', later⟩ := gives_cons.1 gives
        obtain ⟨rfl, rfl⟩ := served.unique served'
        exact ⟨lasts, rfl, (others lasts).2 ((moved.gives_iff after lasts).1 later)⟩
  · rintro ⟨lasts, rfl, gives⟩
    refine ⟨_, rfl, gives_cons.2 ⟨_, served, ?_⟩⟩
    exact (moved.gives_iff after lasts).2 ((others lasts).1 gives)

/-- A text that declares a variable from one that there is not, between two others. -/
theorem unknown_refused_unseen : ∃ firsts mid answer,
    (start (.start [] (.ofSeed 0))).Plays [.submit "var mut a = 1" [] .ready] firsts mid ∧
      (mid.attempt (.ofText "var b = c")).diagnostics ≠ [] ∧
      (start (.start [] (.ofSeed 0))).Gives
        [.submit "var mut a = 1" [] .ready, .submit "a = a + 1; var d = a; print(d)" [] .ready]
        (firsts ++ [answer]) ∧
      (start (.start [] (.ofSeed 0))).Gives
        [.submit "var mut a = 1" [] .ready, .submit "var b = c" [] .ready,
          .submit "a = a + 1; var d = a; print(d)" [] .ready]
        (firsts ++ [.replied (.refused (mid.attempt (.ofText "var b = c")).diagnostics) ""
          mid.world.store.entries, answer]) := by
  obtain ⟨x, mid, submitted, next⟩ : ∃ x mid,
      ((start (.start [] (.ofSeed 0))).supply [] .ready).submit 50 (.ofText "var mut a = 1") =
          some (.value x, mid) ∧
        (!(mid.attempt (.ofText "var b = c")).diagnostics.isEmpty &&
          answers (fun _ _ => true) ((mid.supply [] .ready).submit 50
            (.ofText "a = a + 1; var d = a; print(d)"))) = true :=
    exists_value (by decide +kernel)
  obtain ⟨dirty, found⟩ := Bool.and_eq_true_iff.1 next
  obtain ⟨y, last, later, -⟩ := exists_value found
  have dirty : (mid.attempt (.ofText "var b = c")).diagnostics ≠ [] := by
    intro none
    rw [none] at dirty
    cases dirty
  have reached : (start (.start [] (.ofSeed 0))).Plays [.submit "var mut a = 1" [] .ready] [_] mid :=
    ⟨mid, ⟨50, _, submitted, rfl⟩, rfl⟩
  have gives : mid.Gives [.submit "a = a + 1; var d = a; print(d)" [] .ready] [_] :=
    ⟨last, last, ⟨50, _, later, rfl⟩, rfl⟩
  have without := (reached.gives_append _ _).2 ⟨_, rfl, gives⟩
  exact ⟨_, mid, _, reached, dirty, without,
    (refused_unseen rfl reached dirty [] .ready _ _).2 ⟨_, rfl, without⟩⟩

end Session

end ScriptLang
