/-
# ScriptLang.Proofs.Renaming -- runs of a program under other variables

A world is seen through a renaming if its store is the view of the other one,
and all else is the same, the other one having written something before.  What a
program does depends on its variables only through their numbers and the names
that faults quote, so a renamed program does in the world that is seen what the
program does in the world itself: `Expr.eval_seen` for expressions, and
`Stmt.interpret_seen` for statements as they are nested.

Only the slots of the variables that the program mentions have to be kept; the
others may be dropped from the view.
-/
import ScriptLang.Proofs.Structured

namespace ScriptLang

set_option autoImplicit false

/-! ## Faults -/

/-- A fault with the name it quotes renamed. -/
def Fault.rename (ρ : Renaming) : Fault → Fault
  | .undefinedVariable name => .undefinedVariable (ρ.name name)
  | f => f

theorem Fault.rename_of_kind {ρ : Renaming} {f : Fault} (h : f.kind ≠ .undefinedVariable) :
    f.rename ρ = f := by
  cases f with
  | undefinedVariable name => exact absurd rfl h
  | _ => rfl

/-- A result with the name that its fault quotes renamed. -/
def Renaming.result {α : Type} (ρ : Renaming) : Except Fault α → Except Fault α
  | .ok a => .ok a
  | .error f => .error (f.rename ρ)

/-- Whether a result is a fault that quotes a variable. -/
def Quotes (result : Except Fault Value) : Prop :=
  ∃ f, result = .error f ∧ f.kind = .undefinedVariable

theorem Renaming.result_eq {ρ : Renaming} {result : Except Fault Value} (h : ¬ Quotes result) :
    ρ.result result = result := by
  cases result with
  | ok a => rfl
  | error f =>
      have other : f.kind ≠ .undefinedVariable := fun kind => h ⟨f, rfl, kind⟩
      exact congrArg Except.error (Fault.rename_of_kind other)

theorem not_quotes_ok (x : Value) : ¬ Quotes (.ok x) := by
  rintro ⟨f, h, -⟩
  cases h

theorem not_quotes_error {f : Fault} (h : f.kind ≠ .undefinedVariable) : ¬ Quotes (.error f) := by
  rintro ⟨g, same, kind⟩
  cases same
  exact h kind

namespace Operation

theorem unary_not_quotes (op : UnaryOp) (x : Value) : ¬ Quotes (unary op x) := by
  unfold unary
  split
  all_goals first
    | exact not_quotes_ok _
    | exact not_quotes_error (by simp [Fault.kind])

theorem onInts_not_quotes (op : BinaryOp) (l r : Int64) : ¬ Quotes (onInts op l r) := by
  unfold onInts
  split
  all_goals try split
  all_goals first
    | exact not_quotes_ok _
    | exact not_quotes_error (by simp [Fault.kind])

theorem onFloats_not_quotes (op : BinaryOp) (l r : Float) : ¬ Quotes (onFloats op l r) := by
  unfold onFloats
  split
  all_goals first
    | exact not_quotes_ok _
    | exact not_quotes_error (by simp [Fault.kind])

theorem onBools_not_quotes (op : BinaryOp) (l r : Bool) : ¬ Quotes (onBools op l r) := by
  unfold onBools
  split
  all_goals first
    | exact not_quotes_ok _
    | exact not_quotes_error (by simp [Fault.kind])

theorem shorten_not_quotes (s : String) (n : Int64) : ¬ Quotes (shorten s n) := by
  unfold shorten
  simp only
  split
  · exact not_quotes_ok _
  · split
    · exact not_quotes_ok _
    · exact not_quotes_error (by simp [Fault.kind])

theorem repeated_not_quotes (s : String) (n : Int64) : ¬ Quotes (repeated s n) := by
  unfold repeated
  simp only
  split
  · exact not_quotes_error (by simp [Fault.kind])
  · split
    · exact not_quotes_ok _
    · exact not_quotes_error (by simp [Fault.kind])

theorem binary_not_quotes (op : BinaryOp) (l r : Value) : ¬ Quotes (binary op l r) := by
  unfold binary
  split
  · exact onInts_not_quotes _ _ _
  · exact onFloats_not_quotes _ _ _
  · exact onFloats_not_quotes _ _ _
  · exact onFloats_not_quotes _ _ _
  · exact onBools_not_quotes _ _ _
  · split
    · exact shorten_not_quotes _ _
    · exact repeated_not_quotes _ _
    all_goals first
      | exact not_quotes_ok _
      | exact not_quotes_error (by simp [Fault.kind])

theorem convert_not_quotes (ty : Ty) (x : Value) : ¬ Quotes (convert ty x) := by
  unfold convert
  split
  all_goals try split
  all_goals first
    | exact not_quotes_ok _
    | exact not_quotes_error (by simp [Fault.kind])

end Operation

/-! ## Worlds -/

/-- Whether a world is another one seen through a renaming, which had written `before` when the
first had written nothing. -/
structure World.Seen (ρ : Renaming) (keep : Nat → Bool) (before : String) (w w' : World) :
    Prop where
  store : w'.store = w.store.view ρ keep
  input : w'.input = w.input
  output : w.output = before ++ w'.output
  sink : ∀ written text, w'.sink.accept written text = w.sink.accept (before ++ written) text
  draws : w'.draws = w.draws

/-- Whether an outcome is another one seen through a renaming. -/
def Outcome.Seen {α : Type} (ρ : Renaming) (keep : Nat → Bool) (before : String)
    (o o' : Outcome α) : Prop :=
  o'.1 = ρ.result o.1 ∧ World.Seen ρ keep before o.2 o'.2

/-- Whether a run is another one seen through a renaming; neither ends without the other. -/
def RunSeen (ρ : Renaming) (keep : Nat → Bool) (before : String) :
    Option (Outcome Value) → Option (Outcome Value) → Prop
  | some o, some o' => o.Seen ρ keep before o'
  | none, none => True
  | _, _ => False

variable {ρ : Renaming} {keep : Nat → Bool} {before : String}

namespace Outcome.Seen

theorem ok {α : Type} {w w' : World} (a : α) (seen : World.Seen ρ keep before w w') :
    Outcome.Seen ρ keep before (.ok a, w) (.ok a, w') :=
  ⟨rfl, seen⟩

theorem of_not_quotes {w w' : World} {result : Except Fault Value} (h : ¬ Quotes result)
    (seen : World.Seen ρ keep before w w') :
    Outcome.Seen ρ keep before (result, w) (result, w') :=
  ⟨(Renaming.result_eq h).symm, seen⟩

theorem error {α : Type} {w w' : World} {f : Fault} (h : f.kind ≠ .undefinedVariable)
    (seen : World.Seen ρ keep before w w') :
    Outcome.Seen ρ keep before ((.error f, w) : Outcome α) (.error f, w') :=
  ⟨congrArg Except.error (Fault.rename_of_kind h).symm, seen⟩

theorem andThen {α β : Type} {o o' : Outcome α} {f f' : α → World → Outcome β}
    (seen : o.Seen ρ keep before o')
    (next : ∀ a w w', World.Seen ρ keep before w w' →
      (f a w).Seen ρ keep before (f' a w')) :
    (o.andThen f).Seen ρ keep before (o'.andThen f') := by
  obtain ⟨result, w⟩ := o
  obtain ⟨result', w'⟩ := o'
  obtain ⟨rfl, worlds⟩ := seen
  cases result with
  | ok a => exact next a w w' worlds
  | error f => exact ⟨rfl, worlds⟩

theorem proceed {α : Type} {o o' : Outcome α} {f f' : α → World → Option (Outcome Value)}
    (seen : o.Seen ρ keep before o')
    (next : ∀ a w w', World.Seen ρ keep before w w' →
      RunSeen ρ keep before (f a w) (f' a w')) :
    RunSeen ρ keep before (o.proceed f) (o'.proceed f') := by
  obtain ⟨result, w⟩ := o
  obtain ⟨result', w'⟩ := o'
  obtain ⟨rfl, worlds⟩ := seen
  cases result with
  | ok a => exact next a w w' worlds
  | error f => exact ⟨rfl, worlds⟩

end Outcome.Seen

theorem RunSeen.followedBy {run run' : Option (Outcome Value)}
    {f f' : Value → World → Option (Outcome Value)} (seen : RunSeen ρ keep before run run')
    (next : ∀ last w w', World.Seen ρ keep before w w' →
      RunSeen ρ keep before (f last w) (f' last w')) :
    RunSeen ρ keep before (followedBy run f) (followedBy run' f') := by
  match run, run' with
  | some o, some o' => exact Outcome.Seen.proceed seen next
  | none, none => trivial
  | some _, none => exact seen.elim
  | none, some _ => exact seen.elim

/-! ## Expressions -/

theorem World.Seen.write {w w' : World} (seen : World.Seen ρ keep before w w') (text : String) :
    (w.write text).Seen ρ keep before (w'.write text) := by
  unfold World.write
  rw [seen.sink, ← seen.output]
  match w.sink.accept w.output text with
  | (taken, none) =>
      refine .ok () { seen with output := ?_ }
      simp only [seen.output, String.append_assoc]
  | (taken, some reason) =>
      refine .error (by simp [Fault.kind]) { seen with output := ?_ }
      simp only [seen.output, String.append_assoc]

theorem World.Seen.readLine {w w' : World} (seen : World.Seen ρ keep before w w') :
    w.readLine.Seen ρ keep before w'.readLine := by
  unfold World.readLine World.takeLine
  simp only [seen.input]
  split
  · exact .ok _ { seen with input := rfl }
  · exact .error (by simp [Fault.kind]) { seen with input := rfl }

theorem World.Seen.draw {w w' : World} (seen : World.Seen ρ keep before w w') :
    w'.draw.1 = w.draw.1 ∧ World.Seen ρ keep before w.draw.2 w'.draw.2 := by
  refine ⟨?_, { seen with draws := ?_ }⟩
  · simp [World.draw, seen.draws]
  · simp [World.draw, seen.draws]

namespace Builtin

theorem runPrint_seen {w w' : World} (seen : World.Seen ρ keep before w w')
    (name ending : String) (args : List Value) :
    (runPrint name ending args w).Seen ρ keep before (runPrint name ending args w') := by
  cases args with
  | nil => exact .error (by simp [Fault.kind]) seen
  | cons x rest => exact (seen.write _).andThen fun _ w w' seen => .ok Value.void seen

theorem runRandomInt_seen {w w' : World} (seen : World.Seen ρ keep before w w')
    (name : String) (args : List Value) :
    (runRandomInt name args w).Seen ρ keep before (runRandomInt name args w') := by
  unfold runRandomInt
  split
  · exact .error (by simp [Fault.kind]) seen
  · split
    · exact .error (by simp [Fault.kind]) seen
    · rename_i max _ _
      show Outcome.Seen ρ keep before (.ok (Value.int (Draws.below w.draw.1 max)), w.draw.2)
        (.ok (Value.int (Draws.below w'.draw.1 max)), w'.draw.2)
      rw [seen.draw.1]
      exact .ok _ seen.draw.2
  · exact .error (by simp [Fault.kind]) seen

theorem runRandomFloat_seen {w w' : World} (seen : World.Seen ρ keep before w w')
    (name : String) (args : List Value) :
    (runRandomFloat name args w).Seen ρ keep before (runRandomFloat name args w') := by
  unfold runRandomFloat
  split
  · exact .error (by simp [Fault.kind]) seen
  · split
    · rename_i max _
      show Outcome.Seen ρ keep before (.ok (Value.float (Draws.unit w.draw.1 * max)), w.draw.2)
        (.ok (Value.float (Draws.unit w'.draw.1 * max)), w'.draw.2)
      rw [seen.draw.1]
      exact .ok _ seen.draw.2
    · exact .error (by simp [Fault.kind]) seen

theorem run_seen {w w' : World} (seen : World.Seen ρ keep before w w') (b : Builtin)
    (name : String) (args : List Value) :
    (b.run name args w).Seen ρ keep before (b.run name args w') := by
  cases b with
  | print => exact runPrint_seen seen name "" args
  | println => exact runPrint_seen seen name "\n" args
  | input => exact seen.readLine.andThen fun line w w' seen => .ok (Value.str line) seen
  | stringify =>
      cases args with
      | nil => exact .error (by simp [Fault.kind]) seen
      | cons x rest => exact .ok (Value.str x.text) seen
  | randomInt => exact runRandomInt_seen seen name args
  | randomFloat => exact runRandomFloat_seen seen name args

end Builtin

theorem Function.run_seen {w w' : World} (seen : World.Seen ρ keep before w w') (f : Function)
    (args : List Value) : (f.run args w).Seen ρ keep before (f.run args w') := by
  unfold Function.run
  split
  · exact Builtin.run_seen seen _ _ args
  · exact .error (by simp [Fault.kind]) seen

namespace Bound

/-- Arguments are evaluated alike if each of them is. -/
theorem Expr.evalAll_seen {args : List Expr}
    (each : ∀ e ∈ args, ∀ w w', World.Seen ρ keep before w w' →
      (e.eval w).Seen ρ keep before ((e.rename ρ).eval w'))
    {w w' : World} (seen : World.Seen ρ keep before w w') :
    (Expr.evalAll args w).Seen ρ keep before (Expr.evalAll (args.map (Expr.rename ρ)) w') := by
  induction args generalizing w w' with
  | nil => exact .ok [] seen
  | cons e es ih =>
      rw [List.map_cons, Expr.evalAll, Expr.evalAll]
      apply (each e List.mem_cons_self w w' seen).andThen
      intro x w w' seen
      refine (ih (fun e member => each e (List.mem_cons_of_mem _ member)) seen).andThen ?_
      exact fun xs w w' seen => .ok (x :: xs) seen

/-- A renamed expression gives in the world that is seen what the expression gives. -/
theorem Expr.eval_seen (inj : ρ.Injects keep) (e : Expr) (kept : ∀ v ∈ e.vars, keep v.id = true)
    {w w' : World} (seen : World.Seen ρ keep before w w') :
    (e.eval w).Seen ρ keep before ((e.rename ρ).eval w') := by
  induction e using Expr.induction generalizing w w' with
  | literal value => exact .ok value seen
  | unary rule operand ih =>
      rw [Expr.rename, Expr.eval, Expr.eval]
      apply (ih kept seen).andThen
      intro x w w' seen
      exact .of_not_quotes (Operation.unary_not_quotes _ _) seen
  | binary left rule right ihLeft ihRight =>
      obtain ⟨keptLeft, keptRight⟩ := List.forall_mem_append.1 kept
      rw [Expr.rename, Expr.eval, Expr.eval]
      apply (ihLeft keptLeft seen).andThen
      intro l w w' seen
      apply (ihRight keptRight seen).andThen
      intro r w w' seen
      exact .of_not_quotes (Operation.binary_not_quotes _ _ _) seen
  | var v =>
      have stays : keep v.id = true := kept v List.mem_cons_self
      rw [Expr.rename, Expr.eval, Expr.eval, seen.store, Renaming.var_id,
        Store.get?_view inj w.store stays]
      cases w.store.get? v.id with
      | some x => exact .ok x seen
      | none => exact ⟨rfl, seen⟩
  | assign v value ih =>
      obtain ⟨stays, keptValue⟩ := List.forall_mem_cons.1 kept
      rw [Expr.rename, Expr.eval, Expr.eval]
      apply (ih keptValue seen).andThen
      intro x w w' seen
      simp only [seen.store, Renaming.var_id, Store.assign?_view inj w.store stays]
      cases w.store.assign? v.id x with
      | some t => exact .ok x { seen with store := rfl }
      | none => exact ⟨rfl, { seen with store := seen.store }⟩
  | call f args ih =>
      rw [Expr.rename, Expr.eval, Expr.eval, Expr.renameAll_eq_map]
      have each : ∀ e ∈ args, ∀ w w', World.Seen ρ keep before w w' →
          (e.eval w).Seen ρ keep before ((e.rename ρ).eval w') := by
        intro e member w w' seen
        refine ih e member (fun v h => kept v ?_) seen
        exact Expr.mem_varsOf.2 ⟨e, member, h⟩
      exact (Expr.evalAll_seen each seen).andThen fun xs w w' seen => f.run_seen seen xs
  | convert ty e ih =>
      rw [Expr.rename, Expr.eval, Expr.eval]
      apply (ih kept seen).andThen
      intro x w w' seen
      exact .of_not_quotes (Operation.convert_not_quotes _ _) seen
  | error => exact .error (by simp [Fault.kind]) seen

/-! ## Statements -/

theorem Expr.test_seen (inj : ρ.Injects keep) (e : Expr) (kept : ∀ v ∈ e.vars, keep v.id = true)
    {w w' : World} (seen : World.Seen ρ keep before w w') :
    (e.test w).Seen ρ keep before ((e.rename ρ).test w') := by
  apply (e.eval_seen inj kept seen).andThen
  intro x w w' seen
  cases x with
  | bool b => exact .ok b seen
  | _ => exact .error (by simp [Fault.kind]) seen

theorem Expr.declareAs_seen (inj : ρ.Injects keep) (e : Expr)
    (kept : ∀ v ∈ e.vars, keep v.id = true) {v : Variable} (stays : keep v.id = true)
    {w w' : World} (seen : World.Seen ρ keep before w w') :
    (e.declareAs v w).Seen ρ keep before ((e.rename ρ).declareAs (ρ.var v) w') := by
  refine (e.eval_seen inj kept seen).andThen fun x w w' seen => .ok x { seen with store := ?_ }
  rw [seen.store, Store.upsert_view inj w.store stays]

theorem repeatWhile_seen {test test' : World → Outcome Bool}
    {body body' : Value → World → Option (Outcome Value)}
    (tests : ∀ w w', World.Seen ρ keep before w w' → (test w).Seen ρ keep before (test' w'))
    (bodies : ∀ last w w', World.Seen ρ keep before w w' →
      RunSeen ρ keep before (body last w) (body' last w'))
    (rounds : Nat) (last : Value) {w w' : World} (seen : World.Seen ρ keep before w w') :
    RunSeen ρ keep before (repeatWhile test body rounds last w)
      (repeatWhile test' body' rounds last w') := by
  induction rounds generalizing last w w' with
  | zero => trivial
  | succ rounds ih =>
      rw [repeatWhile, repeatWhile]
      apply (tests w w' seen).proceed
      intro holds w w' seen
      cases holds with
      | false => exact .ok last seen
      | true => exact (bodies last w w' seen).followedBy fun last w w' seen => ih last seen

theorem Stmt.interpretAll_seen {rounds : Nat} {body : List Stmt}
    (each : ∀ s ∈ body, ∀ last w w', World.Seen ρ keep before w w' →
      RunSeen ρ keep before (s.interpret rounds last w) ((s.rename ρ).interpret rounds last w'))
    (last : Value) {w w' : World} (seen : World.Seen ρ keep before w w') :
    RunSeen ρ keep before (Stmt.interpretAll rounds body last w)
      (Stmt.interpretAll rounds (body.map (Stmt.rename ρ)) last w') := by
  induction body generalizing last w w' with
  | nil => exact .ok last seen
  | cons s ss ih =>
      rw [List.map_cons, Stmt.interpretAll, Stmt.interpretAll]
      apply (each s List.mem_cons_self last w w' seen).followedBy
      intro last w w' seen
      exact ih (fun s member => each s (List.mem_cons_of_mem _ member)) last seen

/-- A renamed statement does in the world that is seen what the statement does. -/
theorem Stmt.interpret_seen (inj : ρ.Injects keep) (rounds : Nat) (s : Stmt)
    (kept : ∀ v ∈ s.vars, keep v.id = true) (last : Value) {w w' : World}
    (seen : World.Seen ρ keep before w w') :
    RunSeen ρ keep before (s.interpret rounds last w)
      ((s.rename ρ).interpret rounds last w') := by
  induction s using Stmt.induction generalizing last w w' with
  | block body ih =>
      rw [Stmt.rename, Stmt.interpret, Stmt.interpret, Stmt.renameAll_eq_map]
      refine Stmt.interpretAll_seen ?_ last seen
      intro s member last w w' seen
      exact ih s member (fun v h => kept v (Stmt.mem_varsOf.2 ⟨s, member, h⟩)) last seen
  | declare v init =>
      obtain ⟨stays, keptInit⟩ := List.forall_mem_cons.1 kept
      exact init.declareAs_seen inj keptInit stays seen
  | ifThen test yes ih =>
      obtain ⟨keptTest, keptYes⟩ := List.forall_mem_append.1 kept
      rw [Stmt.rename, Stmt.interpret, Stmt.interpret]
      refine (test.test_seen inj keptTest seen).proceed ?_
      intro holds w w' seen
      cases holds with
      | true => exact ih keptYes last seen
      | false => exact .ok last seen
  | ifElse test yes no ihYes ihNo =>
      obtain ⟨keptFirst, keptNo⟩ := List.forall_mem_append.1 kept
      obtain ⟨keptTest, keptYes⟩ := List.forall_mem_append.1 keptFirst
      rw [Stmt.rename, Stmt.interpret, Stmt.interpret]
      refine (test.test_seen inj keptTest seen).proceed ?_
      intro holds w w' seen
      cases holds with
      | true => exact ihYes keptYes last seen
      | false => exact ihNo keptNo last seen
  | whileLoop test body ih =>
      obtain ⟨keptTest, keptBody⟩ := List.forall_mem_append.1 kept
      rw [Stmt.rename, Stmt.interpret, Stmt.interpret]
      exact repeatWhile_seen (fun _ _ => test.test_seen inj keptTest)
        (fun last _ _ => ih keptBody last) rounds last seen
  | doWhile body test ih =>
      obtain ⟨keptBody, keptTest⟩ := List.forall_mem_append.1 kept
      rw [Stmt.rename, Stmt.interpret, Stmt.interpret]
      have bodySeen : ∀ last w w', World.Seen ρ keep before w w' → RunSeen ρ keep before
          (body.interpret rounds last w) ((body.rename ρ).interpret rounds last w') :=
        fun last _ _ => ih keptBody last
      apply (bodySeen last w w' seen).followedBy
      intro last w w' seen
      exact repeatWhile_seen (fun _ _ => test.test_seen inj keptTest) bodySeen rounds last seen
  | forTo v lower upper body ih =>
      obtain ⟨stays, keptParts⟩ := List.forall_mem_cons.1 kept
      obtain ⟨keptBounds, keptBody⟩ := List.forall_mem_append.1 keptParts
      obtain ⟨keptLower, keptUpper⟩ := List.forall_mem_append.1 keptBounds
      rw [Stmt.rename, Stmt.interpret, Stmt.interpret]
      refine (lower.declareAs_seen inj keptLower stays seen).proceed ?_
      intro _ w w' seen
      refine (upper.eval_seen inj keptUpper seen).proceed ?_
      intro bound w w' seen
      have testKept := forall_vars_belowValue (P := (keep ·.id = true)) stays bound
      have stepKept := forall_vars_increment (P := (keep ·.id = true)) stays
      refine repeatWhile_seen (fun _ _ => (belowValue v bound).test_seen inj testKept)
        ?_ rounds bound seen
      intro last w w' seen
      apply (ih keptBody last seen).followedBy
      intro _ w w' seen
      exact (increment v).eval_seen inj stepKept seen
  | expr e => exact e.eval_seen inj kept seen
  | goto target => exact .error (by simp [Fault.kind]) seen
  | branch target test when => exact .error (by simp [Fault.kind]) seen
  | label here => exact .error (by simp [Fault.kind]) seen

end Bound

end ScriptLang
