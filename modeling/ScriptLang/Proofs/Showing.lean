/-
# ScriptLang.Proofs.Showing -- programs that are shown before they run

A program that is shown is lowered to be printed, and lowered again to be run, so
it runs with other hidden variables than it would have had, in a world in which
its text has been written.  Nothing else of the run shows that: it stops if and
only if the run without it stops, with the same reply, the same input left over and
the same text written by it, and the same store (`Attempt.Program.run_told`).

The store may hold values of variables that a failed submission has left, under
the numbers of hidden ones.  So the two runs are not compared with each other but
each with its statements, in the world below the counter.
-/
import Mathlib.Logic.Function.Iterate
import ScriptLang.Proofs.Relowering
import ScriptLang.Shell.Command

namespace ScriptLang

set_option autoImplicit false

open ScriptLang.Bound (Stmt Submission)

/-! ## Worlds in which a text has been written -/

/-- The world after a text was written. -/
def World.told (w : World) (text : String) : World := { w with output := w.output ++ text }

/-- Whether the stream goes on after a text as it would without it. -/
def World.Overlooks (w : World) (text : String) : Prop :=
  w.sink.after (w.output ++ text) = w.sink.after w.output

/-- Whether a stream does not look at what has been written. -/
def Sink.Steady (sink : Sink) : Prop := ∀ before, sink.after before = sink

/-- Whether two worlds are the same from here on, and the second has written one more text after
what both had written before. -/
structure World.Told (before text : String) (w w' : World) : Prop where
  rest : w'.resume = w.resume
  output : ∃ written, w.output = before ++ written ∧ w'.output = before ++ text ++ written

theorem Sink.after_after (sink : Sink) (before text : String) :
    (sink.after before).after text = sink.after (before ++ text) := by
  simp [Sink.after, String.append_assoc]

theorem World.overlooks_of_steady (w : World) (steady : w.sink.Steady) (text : String) :
    w.Overlooks text :=
  (steady _).trans (steady _).symm

namespace World

variable {before text : String} {w w' : World}

theorem resume_told (overlooks : w.Overlooks text) : (w.told text).resume = w.resume :=
  congrArg (fun sink => { w with output := "", sink := sink }) overlooks

/-- Both worlds go on writing the same. -/
theorem Told.told (told : World.Told before text w w') (more : String) :
    World.Told before text (w.told more) (w'.told more) where
  rest := by
    have after : ∀ w : World, (w.told more).resume =
        { w.resume with sink := w.resume.sink.after more } := by
      intro w
      show { w with output := "", sink := w.sink.after (w.output ++ more) } = _
      rw [← Sink.after_after]
      rfl
    rw [after, after, told.rest]
  output := by
    obtain ⟨written, first, second⟩ := told.output
    refine ⟨written ++ more, ?_, ?_⟩
    · show w.output ++ more = _
      rw [first, String.append_assoc]
    · show w'.output ++ more = _
      rw [second, String.append_assoc]

theorem Told.store (told : World.Told before text w w') : w'.store = w.store := by
  have rest := congrArg World.store told.rest
  exact rest

theorem Told.draws (told : World.Told before text w w') : w'.draws = w.draws := by
  have rest := congrArg World.draws told.rest
  exact rest

end World

/-! ## Runs of the statements -/

theorem Store.below_below {c c' : Nat} (le : c ≤ c') (s : Store) :
    (s.below c').below c = s.below c := by
  unfold below retain
  rw [List.filter_filter]
  refine congrArg Store.mk (List.filter_congr fun slot _ => ?_)
  rw [Bool.and_eq_left_iff_imp, decide_eq_true_eq, decide_eq_true_eq]
  exact fun low => Nat.lt_of_lt_of_le low le

/-- Below a number, the rest of a world is seen from it. -/
theorem World.seen_rest {c c' : Nat} (le : c ≤ c') (w : World) :
    World.Seen .refl (fun id => decide (id < c)) w.output (w.below c') (w.resume.below c) where
  store := by
    rw [Store.view_refl]
    exact (Store.below_below le w.store).symm
  input := rfl
  output := String.append_empty.symm
  sink := fun _ _ => rfl
  draws := rfl

/-- Statements run in the rest of a world as they run in the world, below a number. -/
theorem Bound.Stmt.interpretAll_rest {body : List Stmt} {c c' : Nat}
    (ids : ∀ v ∈ Stmt.varsOf body, v.id < c) (le : c ≤ c') (rounds : Nat) (w : World) :
    RunSeen .refl (fun id => decide (id < c)) w.output
      (Stmt.interpretAll rounds body .void (w.below c'))
      (Stmt.interpretAll rounds body .void (w.resume.below c)) := by
  have same : body.map (Stmt.rename .refl) = body :=
    Bound.map_eq_self fun s _ => s.rename_eq_self fun _ _ => rfl
  have each : ∀ s ∈ body, ∀ last v v', World.Seen .refl (fun id => decide (id < c)) w.output v v' →
      RunSeen .refl (fun id => decide (id < c)) w.output (s.interpret rounds last v)
        ((s.rename .refl).interpret rounds last v') := by
    intro s member last v v' seen
    refine s.interpret_seen (Renaming.injects_refl _) rounds (fun u inside => ?_) last seen
    exact decide_eq_true (ids u (Stmt.mem_varsOf.2 ⟨s, member, inside⟩))
  have seen := Stmt.interpretAll_seen each .void (World.seen_rest le w)
  rwa [same] at seen

/-- What two outcomes have in common if one more text was written before the second. -/
structure Outcome.Told (c : Nat) (before text : String) (o o' : Outcome Value) : Prop where
  result : o'.1 = o.1
  world : World.Told before text (o.2.below c) (o'.2.below c)

/-- Two outcomes that go on from two worlds as a third one does. -/
theorem Outcome.Told.of_seen {c c' : Nat} (le : c ≤ c') {before text : String}
    {o o' rest : Outcome Value}
    (seen : (o.below c).Seen .refl (fun id => decide (id < c)) before rest)
    (seen' : (o'.below c').Seen .refl (fun id => decide (id < c)) (before ++ text) rest) :
    Outcome.Told c before text o o' := by
  obtain ⟨result, worlds⟩ := seen
  obtain ⟨result', worlds'⟩ := seen'
  rw [Renaming.result_refl] at result result'
  refine ⟨result'.symm.trans result, ?_, rest.2.output, worlds.output, worlds'.output⟩
  have store : o'.2.store.below c = o.2.store.below c := by
    have first := worlds.store
    have second := worlds'.store
    rw [Store.view_refl] at first second
    exact (Store.below_below le o'.2.store).symm.trans
      (second.symm.trans (first.trans (Store.below_below (Nat.le_refl c) o.2.store)))
  have goesOn : ∀ {out : String} {w : World},
      World.Seen .refl (fun id => decide (id < c)) out w rest.2 →
        w.sink.after w.output = rest.2.sink.after rest.2.output := by
    intro out w seen
    refine congrArg Sink.mk (funext fun written => funext fun text => ?_)
    rw [seen.sink, seen.output, String.append_assoc]
  have sink : o'.2.sink.after o'.2.output = o.2.sink.after o.2.output :=
    (goesOn worlds').trans (goesOn worlds).symm
  have input : o'.2.input = o.2.input := worlds'.input.symm.trans worlds.input
  have draws : o'.2.draws = o.2.draws := worlds'.draws.symm.trans worlds.draws
  show (⟨o'.2.store.below c, o'.2.input, "", o'.2.sink.after o'.2.output, o'.2.draws⟩ : World) =
    ⟨o.2.store.below c, o.2.input, "", o.2.sink.after o.2.output, o.2.draws⟩
  rw [store, input, sink, draws]

namespace Attempt

/-- The attempt with other numbers for its hidden variables. -/
def numbered (a : Attempt) (c : Nat) : Attempt := { a with nextId := c }

theorem le_lowered (a : Attempt) : a.nextId ≤ a.lowered.nextId := by
  rw [lowered_nextId]
  exact Nat.le_add_right _ _

/-- However often a program was printed, only the numbers of its hidden variables are others. -/
theorem iterate_printed (a : Attempt) (n : Nat) :
    ∃ c, a.nextId ≤ c ∧ Attempt.printed^[n] a = a.numbered c := by
  induction n with
  | zero => exact ⟨a.nextId, Nat.le_refl _, rfl⟩
  | succ n ih =>
      obtain ⟨c, le, same⟩ := ih
      refine ⟨(a.numbered c).lowered.nextId, ?_, ?_⟩
      · exact Nat.le_trans le (a.numbered c).le_lowered
      · rw [Function.iterate_succ_apply', same]
        rfl

namespace Program

variable {a : Attempt} {body : List Stmt} {c : Nat}

theorem numbered (program : a.Program body) (le : a.nextId ≤ c) : (a.numbered c).Program body where
  statement := program.statement
  structured := program.structured
  ids := fun v member => Nat.lt_of_lt_of_le (program.ids v member) le

theorem programText_numbered (program : a.Program body) (le : a.nextId ≤ c) :
    (a.numbered c).programText = a.programText := by
  have ids : a.submission.statement.IdsBelow a.nextId := by
    rw [program.statement]
    exact program.ids
  exact (a.submission.statement.relowers le ids).printed

variable {w : World} {text : String}

/-- Whether a program stops does not depend on the text before it and the numbers of its hidden
variables. -/
theorem stops_told (program : a.Program body) (le : a.nextId ≤ c) (overlooks : w.Overlooks text) :
    (∃ fuel o, runProgram fuel (a.numbered c).lowered.program (w.told text) = some o) ↔
      ∃ fuel o, runProgram fuel a.lowered.program w = some o := by
  rw [program.stops_iff_ends, (program.numbered le).stops_iff_ends]
  refine exists_congr fun rounds => ?_
  have rest := (Stmt.interpretAll_rest program.ids (Nat.le_refl _) rounds w).some_iff
  have rest' := (Stmt.interpretAll_rest program.ids le rounds (w.told text)).some_iff
  rw [World.resume_told overlooks] at rest'
  exact rest'.trans rest.symm

/-- A program gives what it gives with other hidden variables and a text before it. -/
theorem run_told (program : a.Program body) (le : a.nextId ≤ c) (overlooks : w.Overlooks text)
    {fuel fuel' : Nat} {o o' : Outcome Value}
    (ended : runProgram fuel a.lowered.program w = some o)
    (ended' : runProgram fuel' (a.numbered c).lowered.program (w.told text) = some o') :
    Outcome.Told a.nextId w.output text o o' := by
  obtain ⟨rounds, ran⟩ := program.ends_iff.2 ⟨fuel, o, ended, rfl⟩
  obtain ⟨rounds', ran'⟩ : ∃ rounds', Stmt.interpretAll rounds' body .void ((w.told text).below c) =
      some (o'.below c) := (program.numbered le).ends_iff.2 ⟨fuel', o', ended', rfl⟩
  have seen := Stmt.interpretAll_rest program.ids (Nat.le_refl _) (max rounds rounds') w
  have seen' := Stmt.interpretAll_rest program.ids le (max rounds rounds') (w.told text)
  rw [Stmt.interpretAll_more (Nat.le_max_left _ _) ran] at seen
  rw [World.resume_told overlooks, Stmt.interpretAll_more (Nat.le_max_right _ _) ran'] at seen'
  cases rest : Stmt.interpretAll (max rounds rounds') body .void (w.resume.below a.nextId) with
  | none =>
      rw [rest] at seen
      exact seen.elim
  | some q =>
      rw [rest] at seen seen'
      exact .of_seen le seen seen'

end Program

end Attempt

/-! ## Sessions -/

namespace Session

/-- The session after a text was written. -/
def told (s : Session) (text : String) : Session := { s with world := s.world.told text }

/-- Whether two sessions differ in a text that the second has written, and in the next number. -/
structure Told (before text : String) (s s' : Session) : Prop where
  world : World.Told before text s.world s'.world
  chain : s'.chain = s.chain
  le : s.nextId ≤ s'.nextId
  unmoved : s.chain = [] → s'.nextId = s.nextId

variable {before text : String} {s s' : Session}

/-- Both sessions go on writing the same. -/
theorem Told.told (told : Told before text s s') (more : String) :
    Told before text (s.told more) (s'.told more) where
  world := told.world.told more
  chain := told.chain
  le := told.le
  unmoved := told.unmoved

theorem Reachable.told (reachable : s.Reachable) (text : String) : (s.told text).Reachable :=
  .streams reachable _ rfl

/-- The two sessions answer all that is asked for later alike. -/
theorem Told.gives_iff (told : Told before text s s') (reachable : s.Reachable)
    (requests : List Request) (answers : List Answer) :
    s'.Gives requests answers ↔ s.Gives requests answers := by
  have low := reachable.sound.below
  obtain ⟨chain', nextId', w'⟩ := s'
  obtain ⟨world, rfl, le, unmoved⟩ := told
  by_cases empty : s.chain = []
  · obtain rfl := unmoved empty
    exact (moved_next (Nat.le_refl _) low (Store.view_shift_self _ _) world.store
      world.draws).gives_iff requests answers
  · exact (moved_next le low (Store.view_of_low (reachable.settled empty)) world.store
      world.draws).gives_iff requests answers

variable {a : Attempt} {c : Nat} {o o' : Outcome Value}

/-- Two outcomes that differ in a text that was written lead to the same reply, and to sessions that
differ in it. -/
theorem finish_told (low : ∀ v ∈ chainVariables a.chain, v.id < a.nextId) (le : a.nextId ≤ c)
    (outcomes : Outcome.Told a.nextId before text o o') :
    ((s.told text).finish Reply.isValue (a.numbered c) o').1 = (s.finish Reply.isValue a o).1 ∧
      Told before text (s.finish Reply.isValue a o).2
        ((s.told text).finish Reply.isValue (a.numbered c) o').2 := by
  obtain ⟨result, w⟩ := o
  obtain ⟨result', w'⟩ := o'
  obtain ⟨same, world⟩ := outcomes
  have same : result' = result := same
  subst same
  have worlds : World.Told before text { w with store := w.store.prune a.chain }
      { w' with store := w'.store.prune a.chain } := by
    refine ⟨?_, world.output⟩
    have store : w'.store.below a.nextId = w.store.below a.nextId := world.store
    have pruned : w'.store.prune a.chain = w.store.prune a.chain := by
      rw [← Store.prune_below w'.store low, store, Store.prune_below w.store low]
    have rest := congrArg (fun w : World => { w with store := w'.store.prune a.chain }) world.rest
    dsimp only [World.resume, World.below] at rest ⊢
    rw [rest, pruned]
  have lowered : a.lowered.nextId ≤ (a.numbered c).lowered.nextId := by
    rw [Attempt.lowered_nextId, Attempt.lowered_nextId]
    exact Nat.add_le_add_right le _
  cases result' with
  | ok x => exact ⟨rfl, worlds, rfl, lowered, fun empty => nomatch empty⟩
  | error f =>
      refine ⟨rfl, ?_⟩
      show Told before text ((s.after a w).abandon a.lowered.nextId)
        (((s.told text).after a w').abandon (a.numbered c).lowered.nextId)
      cases empty : s.chain.isEmpty with
      | true =>
          rw [abandon, abandon, if_pos (show (s.after a w).chain.isEmpty = true from empty),
            if_pos (show ((s.told text).after a w').chain.isEmpty = true from empty)]
          exact ⟨worlds, rfl, Nat.le_refl _, fun _ => rfl⟩
      | false =>
          have chained : ¬ s.chain.isEmpty = true := Bool.eq_false_iff.1 empty
          rw [abandon, abandon, if_neg (show ¬ (s.after a w).chain.isEmpty = true from chained),
            if_neg (show ¬ ((s.told text).after a w').chain.isEmpty = true from chained)]
          exact ⟨worlds, rfl, lowered, fun none => absurd (List.isEmpty_iff.2 none) chained⟩

end Session

/-! ## Showing programs -/

/-- Whether two computations end together, whatever fuel each needs, with answers that are
related. -/
structure EndAlike {α : Type} (related : α → α → Prop) (run run' : Nat → Option α) : Prop where
  ends : (∃ fuel x, run' fuel = some x) ↔ ∃ fuel x, run fuel = some x
  answers : ∀ {fuel fuel' x x'}, run fuel = some x → run' fuel' = some x' → related x x'

theorem exists_map {α β : Type} {run : Nat → Option α} (f : α → β) :
    (∃ fuel y, (run fuel).map f = some y) ↔ ∃ fuel x, run fuel = some x := by
  simp only [Option.map_eq_some_iff]
  constructor
  · rintro ⟨fuel, _, x, ended, -⟩
    exact ⟨fuel, x, ended⟩
  · rintro ⟨fuel, x, ended⟩
    exact ⟨fuel, _, x, ended, rfl⟩

theorem EndAlike.map {α β : Type} {related : α → α → Prop} {related' : β → β → Prop}
    {run run' : Nat → Option α} (alike : EndAlike related run run') {f f' : α → β}
    (next : ∀ {fuel x x'}, run fuel = some x → related x x' → related' (f x) (f' x')) :
    EndAlike related' (fun fuel => (run fuel).map f) (fun fuel => (run' fuel).map f') where
  ends := by rw [exists_map, exists_map, alike.ends]
  answers := by
    intro fuel fuel' y y' mapped mapped'
    obtain ⟨x, ended, rfl⟩ := Option.map_eq_some_iff.1 mapped
    obtain ⟨x', ended', rfl⟩ := Option.map_eq_some_iff.1 mapped'
    exact next ended (alike.answers ended ended')

theorem Attempt.Program.endAlike {a : Attempt} {body : List Stmt} (program : a.Program body)
    {c : Nat} (le : a.nextId ≤ c) {w : World} {text : String} (overlooks : w.Overlooks text) :
    EndAlike (Outcome.Told a.nextId w.output text)
      (fun fuel => runProgram fuel a.lowered.program w)
      (fun fuel => runProgram fuel (a.numbered c).lowered.program (w.told text)) :=
  ⟨program.stops_told le overlooks, program.run_told le overlooks⟩

namespace Session

/-- Whether two sessions differ in nothing but a text that the second has written. -/
structure Alike (before text : String) (s s' : Session) : Prop where
  world : World.Told before text s.world s'.world
  gives : ∀ requests answers, s'.Gives requests answers ↔ s.Gives requests answers

/-- Run the program of an attempt, and go on as after submitting it. -/
def conclude (fuel : Nat) (s : Session) (a : Attempt) : Option (Reply × Session) :=
  (runProgram fuel a.lowered.program s.world).map (s.finish Reply.isValue a)

variable {s : Session} {text : String}

/-- Finishing a run and finishing one before which a text was written. -/
theorem finish_alike (reachable : s.Reachable) (clean : (s.attempt (.ofText text)).diagnostics = [])
    {c : Nat} (le : (s.attempt (.ofText text)).nextId ≤ c) {before shown : String}
    {o o' : Outcome Value} {fuel : Nat}
    (ended : runProgram fuel (s.attempt (.ofText text)).lowered.program s.world = some o)
    (outcomes : Outcome.Told (s.attempt (.ofText text)).nextId before shown o o') :
    ((s.told shown).finish Reply.isValue ((s.attempt (.ofText text)).numbered c) o').1 =
        (s.finish Reply.isValue (s.attempt (.ofText text)) o).1 ∧
      Told before shown (s.finish Reply.isValue (s.attempt (.ofText text)) o).2
        ((s.told shown).finish Reply.isValue ((s.attempt (.ofText text)).numbered c) o').2 ∧
      (s.finish Reply.isValue (s.attempt (.ofText text)) o).2.Reachable := by
  have low := Attempt.low_bind clean reachable.sound.below
  obtain ⟨replies, told⟩ := finish_told low le outcomes
  exact ⟨replies, told, .submit reachable (submit_of_run clean ended)⟩

/-- Submitting a text ends as running it does after its program was printed any number of times,
with the same reply, and leaves the same session. -/
theorem submit_endAlike (reachable : s.Reachable)
    (clean : (s.attempt (.ofText text)).diagnostics = []) (n : Nat) {shown : String}
    (overlooks : s.world.Overlooks shown) :
    EndAlike (fun answer answer' =>
        answer'.1 = answer.1 ∧ Alike s.world.output shown answer.2 answer'.2)
      (fun fuel => s.submit fuel (.ofText text))
      (fun fuel => (s.told shown).conclude fuel
        (Attempt.printed^[n] (s.attempt (.ofText text)))) := by
  obtain ⟨c, le, printed⟩ := (s.attempt (.ofText text)).iterate_printed n
  have program := Attempt.program_bind clean reachable.sound.below
  have submitted : (fun fuel => s.submit fuel (.ofText text)) = fun fuel =>
      (runProgram fuel (s.attempt (.ofText text)).lowered.program s.world).map
        (s.finish Reply.isValue (s.attempt (.ofText text))) := by
    funext fuel
    unfold submit evaluate
    dsimp only
    rw [clean]
  rw [submitted, printed]
  refine (program.endAlike le overlooks).map fun ended outcomes => ?_
  obtain ⟨replies, told, later⟩ := finish_alike reachable clean le ended outcomes
  exact ⟨replies, told.world, told.gives_iff later⟩

end Session

namespace Shell

namespace Prompt

/-- Submit a tree, and run its program for at most `fuel` steps. -/
def answer? (fuel : Nat) (p : Prompt) (tree : Syntax.Tree) : Option Prompt :=
  match p.submit tree with
  | .next q => some q
  | .run a q => (runProgram fuel a.lowered.program q.session.world).map (q.finish a)
  | .leave _ q => some q

/-- What is shown of a tree. -/
def treeText (p : Prompt) (tree : Syntax.Tree) : String :=
  if p.showTree then tree.root.outline.render else ""

/-- The prompt after the tree was shown, if trees are. -/
def showing (p : Prompt) (tree : Syntax.Tree) : Prompt :=
  if p.showTree then p.say tree.root.outline.render else p

/-- Whether two prompts differ in nothing but a text that the second has written, and what they
show. -/
structure Alike (before shown : String) (p p' : Prompt) : Prop where
  session : Session.Alike before shown p.session p'.session
  notices : p'.notices = p.notices
  pending : p'.pending = p.pending

variable {p : Prompt} {text : String}

theorem showing_session (p : Prompt) (tree : Syntax.Tree) :
    (p.showing tree).session = p.session.told (p.treeText tree) := by
  unfold showing treeText
  split
  · rfl
  · unfold Session.told World.told
    rw [String.append_empty]

theorem showing_keeps (p : Prompt) (tree : Syntax.Tree) :
    (p.showing tree).notices = p.notices ∧ (p.showing tree).pending = p.pending ∧
      (p.showing tree).showProgram = p.showProgram := by
  unfold showing
  split <;> exact ⟨rfl, rfl, rfl⟩

theorem submit_clean (tree : Syntax.Tree) (clean : (p.session.attempt tree).diagnostics = []) :
    p.submit tree =
      if p.showProgram then
        .run (p.session.attempt tree).printed
          ((p.showing tree).say (p.session.attempt tree).programText)
      else .run (p.session.attempt tree) (p.showing tree) := by
  have same : (p.showing tree).session.attempt tree = p.session.attempt tree := by
    rw [showing_session]
    rfl
  unfold submit
  dsimp only
  rw [← showing, same, clean]
  dsimp only
  rw [(p.showing_keeps tree).2.2]

/-- Finishing a run at the prompt and finishing one before which a text was written. -/
theorem finish_alike {q q' : Prompt} {s s' : Session} (start : q.session = s)
    (start' : q'.session = s') {a a' : Attempt} {o o' : Outcome Value} {before shown : String}
    (replies : (s'.finish Reply.isValue a' o').1 = (s.finish Reply.isValue a o).1)
    (told : Session.Told before shown (s.finish Reply.isValue a o).2
      (s'.finish Reply.isValue a' o').2)
    (later : (s.finish Reply.isValue a o).2.Reachable) (notices : q'.notices = q.notices)
    (pending : q'.pending = q.pending) : Alike before shown (q.finish a o) (q'.finish a' o') := by
  subst start start'
  have session : ∀ {t t' : Session}, Session.Told before shown t t' → t.Reachable →
      Session.Alike before shown t t' := fun told later => ⟨told.world, told.gives_iff later⟩
  unfold Prompt.finish
  cases first : q.session.finish Reply.isValue a o with
  | mk reply t =>
  cases second : q'.session.finish Reply.isValue a' o' with
  | mk reply' t' =>
  rw [first, second] at replies told
  rw [first] at later
  obtain rfl : reply' = reply := replies
  cases reply' with
  | refused ds => exact ⟨session told later, notices, pending⟩
  | fault f => exact ⟨session told later, congrArg (· ++ [_]) notices, pending⟩
  | value v =>
      dsimp only
      split
      · exact ⟨session told later, notices, pending⟩
      · exact ⟨session (told.told _) (later.told _), notices, pending⟩

section

variable {tree : Syntax.Tree} (clean : (p.session.attempt tree).diagnostics = []) (fuel : Nat)

include clean

theorem answer_hidden (hidden : p.showProgram = false) :
    p.answer? fuel tree = (runProgram fuel (p.session.attempt tree).lowered.program
      (p.showing tree).session.world).map ((p.showing tree).finish (p.session.attempt tree)) := by
  rw [answer?, submit_clean tree clean, hidden]
  rfl

theorem answer_shown (shown : p.showProgram = true) :
    p.answer? fuel tree = (runProgram fuel (p.session.attempt tree).printed.lowered.program
      ((p.showing tree).session.told (p.session.attempt tree).programText).world).map
        (((p.showing tree).say (p.session.attempt tree).programText).finish
          (p.session.attempt tree).printed) := by
  rw [answer?, submit_clean tree clean, shown]
  rfl

end

/-- A submission to the prompt ends as it does if its program is shown, and leaves the same
prompt. -/
theorem answer_endAlike (reachable : p.session.Reachable)
    (clean : (p.session.attempt (.ofText text)).diagnostics = [])
    (steady : p.session.world.sink.Steady) (hidden : p.showProgram = false) :
    EndAlike
      (Alike (p.session.world.output ++ p.treeText (.ofText text))
        (p.session.attempt (.ofText text)).programText)
      (fun fuel => p.answer? fuel (.ofText text))
      (fun fuel => { p with showProgram := true }.answer? fuel (.ofText text)) := by
  let s := p.session.told (p.treeText (.ofText text))
  let a := p.session.attempt (.ofText text)
  let p' : Prompt := { p with showProgram := true }
  have clean' : (p'.session.attempt (.ofText text)).diagnostics = [] := clean
  have start : (p.showing (.ofText text)).session = s := p.showing_session _
  have start' : (p'.showing (.ofText text)).session = s := p'.showing_session _
  have overlooks : s.world.Overlooks a.programText := s.world.overlooks_of_steady steady _
  have program : a.Program _ := Attempt.program_bind clean reachable.sound.below
  have runs := program.endAlike a.le_lowered overlooks
  have hides := funext fun fuel => answer_hidden clean fuel hidden
  have shows := funext fun fuel => answer_shown clean' fuel rfl
  rw [hides, shows, start, start']
  refine runs.map fun ended outcomes => ?_
  have finished :=
    Session.finish_alike (s := s) (reachable.told _) clean a.le_lowered ended outcomes
  obtain ⟨replies, told, later⟩ := finished
  have shown := congrArg (Session.told · a.programText) start'
  refine finish_alike start shown replies told later ?_ ?_
  · exact (p'.showing_keeps _).1.trans (p.showing_keeps _).1.symm
  · exact (p'.showing_keeps _).2.1.trans (p.showing_keeps _).2.1.symm

end Prompt

/-! ### On the command line -/

namespace Action

/-- Whether two reports differ in nothing but a text that the second has in its output. -/
structure Alike (before shown : String) (r r' : Report) : Prop where
  exitCode : r'.exitCode = r.exitCode
  notices : r'.notices = r.notices
  output : ∃ rest, r.output = before ++ rest ∧ r'.output = before ++ shown ++ rest

theorem ofOutcome_alike {c : Nat} {before shown : String} {o o' : Outcome Value}
    (outcomes : Outcome.Told c before shown o o') :
    Alike before shown (.ofOutcome o) (.ofOutcome o') := by
  obtain ⟨result, w⟩ := o
  obtain ⟨result', w'⟩ := o'
  obtain ⟨same, world⟩ := outcomes
  obtain rfl : result' = result := same
  obtain ⟨written, output, output'⟩ : ∃ written, w.output = before ++ written ∧
      w'.output = before ++ shown ++ written := world.output
  cases result' with
  | error f => exact ⟨rfl, rfl, written, output, output'⟩
  | ok v =>
      unfold Report.ofOutcome
      dsimp only
      cases v.isVoid with
      | true => exact ⟨rfl, rfl, written, output, output'⟩
      | false =>
          refine ⟨rfl, rfl, written ++ v.text ++ "\n", ?_, ?_⟩
          · simp [Report.succeeded, output, String.append_assoc]
          · simp [Report.succeeded, output', String.append_assoc]

/-- What a command that runs a file without problems comes to. -/
theorem finish_start (path : String) {text : String} (w : World)
    (clean : (Attempt.bind [] 0 (.ofText text)).diagnostics = []) (showTree showProgram : Bool)
    (fuel : Nat) :
    ((Action.run showTree showProgram).start path text w).finish fuel =
      let a := Attempt.bind [] 0 (.ofText text)
      (runProgram fuel (if showProgram then a.printed else a).lowered.program
        (w.told (shown a showTree showProgram))).map Report.ofOutcome := by
  unfold start
  dsimp only
  rw [clean]
  rfl

/-- The program is shown after the tree. -/
theorem told_shown (w : World) (a : Attempt) (showTree : Bool) :
    w.told (shown a showTree true) = (w.told (shown a showTree false)).told a.programText := by
  simp [World.told, shown, String.append_assoc]

/-- Running a file ends as it does if its program is shown, with the same report. -/
theorem start_endAlike {path text : String} {w : World} (steady : w.sink.Steady)
    (clean : (Attempt.bind [] 0 (.ofText text)).diagnostics = []) (showTree : Bool) :
    EndAlike
      (Alike (w.output ++ shown (Attempt.bind [] 0 (.ofText text)) showTree false)
        (Attempt.bind [] 0 (.ofText text)).programText)
      (fun fuel => ((Action.run showTree false).start path text w).finish fuel)
      (fun fuel => ((Action.run showTree true).start path text w).finish fuel) := by
  let a := Attempt.bind [] 0 (.ofText text)
  have program : a.Program _ := Attempt.program_bind clean fun _ member => nomatch member
  have runs := program.endAlike a.le_lowered
    ((w.told (shown a showTree false)).overlooks_of_steady steady a.programText)
  have hides := funext fun fuel => finish_start path w clean showTree false fuel
  have shows := funext fun fuel => finish_start path w clean showTree true fuel
  dsimp only at hides shows
  rw [hides, shows, told_shown]
  exact runs.map fun _ outcomes => ofOutcome_alike outcomes

end Action

end Shell

/-! ## Lowering again -/

/-- Lowering again changes nothing that can be observed.  From a higher number a statement is
lowered to the same program with its hidden variables shifted, which is printed alike and gives the
same.  So a program can be printed any number of times before it runs: by itself, at the prompt, or
on the command line.  What is printed to the stream that the program writes to may be anything that
the stream overlooks. -/
theorem lower_again :
    (∀ (s : Stmt) (first target : Nat), first ≤ target → s.IdsBelow first →
      s.Relowers first target) ∧
    (∀ (s : Session) (text : String), s.Reachable →
      (s.attempt (.ofText text)).diagnostics = [] → ∀ n shown, s.world.Overlooks shown →
        (Attempt.printed^[n] (s.attempt (.ofText text))).programText =
            (s.attempt (.ofText text)).programText ∧
          EndAlike (fun answer answer' => answer'.1 = answer.1 ∧
              Session.Alike s.world.output shown answer.2 answer'.2)
            (fun fuel => s.submit fuel (.ofText text))
            (fun fuel => (s.told shown).conclude fuel
              (Attempt.printed^[n] (s.attempt (.ofText text))))) ∧
    (∀ (p : Shell.Prompt) (text : String), p.session.Reachable →
      (p.session.attempt (.ofText text)).diagnostics = [] → p.session.world.sink.Steady →
      p.showProgram = false →
        EndAlike
          (Shell.Prompt.Alike (p.session.world.output ++ p.treeText (.ofText text))
            (p.session.attempt (.ofText text)).programText)
          (fun fuel => p.answer? fuel (.ofText text))
          (fun fuel => { p with showProgram := true }.answer? fuel (.ofText text))) ∧
    (∀ (path text : String) (w : World), w.sink.Steady →
      (Attempt.bind [] 0 (.ofText text)).diagnostics = [] → ∀ showTree,
        EndAlike
          (Shell.Action.Alike
            (w.output ++ Shell.Action.shown (Attempt.bind [] 0 (.ofText text)) showTree false)
            (Attempt.bind [] 0 (.ofText text)).programText)
          (fun fuel => ((Shell.Action.run showTree false).start path text w).finish fuel)
          (fun fuel => ((Shell.Action.run showTree true).start path text w).finish fuel)) := by
  refine ⟨fun s first target le ids => s.relowers le ids, ?_, ?_, ?_⟩
  · intro s text reachable clean n shown overlooks
    refine ⟨?_, Session.submit_endAlike reachable clean n overlooks⟩
    obtain ⟨c, le, printed⟩ := (s.attempt (.ofText text)).iterate_printed n
    rw [printed]
    exact (Attempt.program_bind clean reachable.sound.below).programText_numbered le
  · exact fun p text reachable clean steady hidden =>
      Shell.Prompt.answer_endAlike reachable clean steady hidden
  · exact fun path text w steady clean showTree =>
      Shell.Action.start_endAlike steady clean showTree

/-- A counting loop in a counting loop. -/
def triangle : String := "for i = 0 to 3 \x7b for j = 0 to i \x7b print(j) \x7d \x7d"

/-- The loops count with hidden variables of their own, and others after they were printed. -/
theorem triangle_lower_again :
    let s : Session := .start (.start [] (.ofSeed 0))
    let a := s.attempt (.ofText triangle)
    let p : Shell.Prompt := ⟨s, "", true, false, []⟩
    a.diagnostics = [] ∧ a.submission.statement.Relowers a.nextId a.lowered.nextId ∧
      EndAlike (fun answer answer' => answer'.1 = answer.1 ∧
          Session.Alike "" a.programText answer.2 answer'.2)
        (fun fuel => s.submit fuel (.ofText triangle))
        (fun fuel => (s.told a.programText).conclude fuel (Attempt.printed^[2] a)) ∧
      EndAlike (Shell.Prompt.Alike ("" ++ p.treeText (.ofText triangle)) a.programText)
        (fun fuel => p.answer? fuel (.ofText triangle))
        (fun fuel => { p with showProgram := true }.answer? fuel (.ofText triangle)) ∧
      EndAlike (Shell.Action.Alike ("" ++ Shell.Action.shown a false false) a.programText)
        (fun fuel => ((Shell.Action.run false false).start "triangle" triangle s.world).finish fuel)
        (fun fuel =>
          ((Shell.Action.run false true).start "triangle" triangle s.world).finish fuel) := by
  intro s a p
  have clean : a.diagnostics = [] := by
    decide +kernel
  have ids : ∀ v ∈ a.submission.statement.vars, v.id < a.nextId := by
    decide +kernel
  have reachable : s.Reachable := .start _ rfl
  have steady : s.world.sink.Steady := fun _ => rfl
  obtain ⟨relowers, submits, answers, runs⟩ := lower_again
  refine ⟨clean, relowers _ _ _ a.le_lowered ids, ?_, ?_, ?_⟩
  · exact (submits s triangle reachable clean 2 _ (s.world.overlooks_of_steady steady _)).2
  · exact answers p triangle reachable clean steady rfl
  · exact runs "triangle" triangle s.world steady clean false

end ScriptLang
