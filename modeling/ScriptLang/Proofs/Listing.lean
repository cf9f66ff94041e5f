/-
# ScriptLang.Proofs.Listing -- which variables a store lists, and in which order

A run adds variables to the end of the store, and keeps those that are there as
they are.  So after a submission that gives a value the store lists the top-level
variables that had a slot before it, as they stand in those slots, and then the
others in the order of their declarations (`Session.Checked.listing`).

The slots from before are those of the chain, unless the chain is empty: numbers
are counted from zero then, and slots that a failed submission left behind are
taken for those of the variables with their numbers.  So the store lists the
top-level variables if and only if what was left behind is where they begin
(`Session.listing_iff_prefix`).
-/
import ScriptLang.Proofs.Filing
import ScriptLang.Proofs.Lowering
import ScriptLang.Proofs.Sessions

namespace ScriptLang

set_option autoImplicit false

open ScriptLang.Bound (Stmt Expr Submission leavesOf)

/-! ## What a run keeps -/

namespace Bound

mutual

/-- The variables that the expressions of a statement assign to. -/
def Stmt.assigned : Stmt → List Variable
  | .block body => Stmt.assignedIn body
  | .declare _ init => init.assigned
  | .ifThen test yes => test.assigned ++ yes.assigned
  | .ifElse test yes no => test.assigned ++ yes.assigned ++ no.assigned
  | .whileLoop test body => test.assigned ++ body.assigned
  | .doWhile body test => body.assigned ++ test.assigned
  | .forTo _ lower upper body => lower.assigned ++ upper.assigned ++ body.assigned
  | .expr e => e.assigned
  | .branch _ test _ => test.assigned
  | .goto _ | .label _ => []

def Stmt.assignedIn : List Stmt → List Variable
  | [] => []
  | s :: ss => s.assigned ++ Stmt.assignedIn ss

end

theorem Stmt.mem_assignedIn {v : Variable} {body : List Stmt} :
    v ∈ Stmt.assignedIn body ↔ ∃ s ∈ body, v ∈ s.assigned := by
  induction body with
  | nil => simp [Stmt.assignedIn]
  | cons s ss ih => simp [Stmt.assignedIn, ih]

section

variable {P : Store → Prop}

theorem proceed_keeps {α : Type} {o : Outcome α} {next : α → World → Option (Outcome Value)}
    {p : Outcome Value} (first : P o.2.store)
    (rest : ∀ a w, P w.store → ∀ p, next a w = some p → P p.2.store)
    (ended : o.proceed next = some p) : P p.2.store := by
  obtain ⟨result, w⟩ := o
  cases result with
  | ok a => exact rest a w first p ended
  | error f =>
      cases ended
      exact first

theorem followedBy_keeps {run : Option (Outcome Value)}
    {next : Value → World → Option (Outcome Value)} {p : Outcome Value}
    (first : ∀ o, run = some o → P o.2.store)
    (rest : ∀ last w, P w.store → ∀ p, next last w = some p → P p.2.store)
    (ended : followedBy run next = some p) : P p.2.store := by
  cases run with
  | none => cases ended
  | some o => exact proceed_keeps (first o rfl) rest ended

theorem repeatWhile_keeps {test : World → Outcome Bool}
    {body : Value → World → Option (Outcome Value)} (tests : ∀ w, P w.store → P (test w).2.store)
    (round : ∀ last w, P w.store → ∀ o, body last w = some o → P o.2.store) {n : Nat} {last : Value}
    {w : World} (before : P w.store) {o : Outcome Value}
    (ended : repeatWhile test body n last w = some o) : P o.2.store := by
  induction n generalizing last w o with
  | zero => cases ended
  | succ n ih =>
      refine proceed_keeps (tests w before) ?_ ended
      intro holds w between p ended
      cases holds with
      | true =>
          exact followedBy_keeps (round last w between) (fun _ _ kept _ ended => ih kept ended) ended
      | false =>
          cases ended
          exact between

theorem Stmt.interpretAll_keeps {rounds : Nat} {body : List Stmt}
    (each : ∀ s ∈ body, ∀ last (w : World), P w.store →
      ∀ o, s.interpret rounds last w = some o → P o.2.store) {last : Value} {w : World}
    (before : P w.store) {o : Outcome Value}
    (ended : Stmt.interpretAll rounds body last w = some o) : P o.2.store := by
  induction body generalizing last w o with
  | nil =>
      cases ended
      exact before
  | cons s ss ih =>
      rw [Stmt.interpretAll] at ended
      exact followedBy_keeps (each s List.mem_cons_self last w before)
        (fun _ _ between _ ended => ih (fun s member => each s (List.mem_cons_of_mem _ member))
          between ended) ended

/-- Whether every assignment to a variable keeps what holds of a store. -/
def KeptBy (P : Store → Prop) (v : Variable) : Prop :=
  ∀ s t x, s.assign? v.id x = some t → P s → P t

/-- A variable that may be declared may be assigned to. -/
theorem KeptBy.of_upsert {v : Variable} (declares : ∀ s x, P s → P (s.upsert v x)) :
    KeptBy P v := by
  intro s t x assigned before
  have same := Store.upsert_of_contains (v := v) x (Store.contains_of_assign? assigned)
  rw [assigned] at same
  rw [Option.some.inj same]
  exact declares s x before

theorem Expr.eval_kept (e : Expr) (assigns : ∀ v ∈ e.assigned, KeptBy P v) {w : World}
    (before : P w.store) : P (e.eval w).2.store := by
  have kept := @Expr.eval_keeps (fun s t => P s → P t) (fun _ same => same)
    (fun _ _ _ first second before => second (first before)) e
  exact kept assigns w before

theorem Expr.test_kept (e : Expr) (assigns : ∀ v ∈ e.assigned, KeptBy P v) (w : World)
    (before : P w.store) : P (e.test w).2.store := by
  have same : (e.test w).2.store = (e.eval w).2.store := by
    apply Outcome.andThen_store
    intro x w
    cases x <;> rfl
  rw [same]
  exact e.eval_kept assigns before

theorem Expr.declareAs_kept (e : Expr) (assigns : ∀ v ∈ e.assigned, KeptBy P v) {v : Variable}
    (declares : ∀ s x, P s → P (s.upsert v x)) {w : World} (before : P w.store) :
    P (e.declareAs v w).2.store := by
  have kept := e.eval_kept assigns before
  unfold Expr.declareAs
  match e.eval w, kept with
  | (.error f, w), kept => exact kept
  | (.ok x, w), kept => exact declares _ x kept

/-- What is kept when a statement assigns to a variable or declares one is kept by the statement. -/
theorem Stmt.interpret_keeps {rounds : Nat} (s : Stmt) (assigns : ∀ v ∈ s.assigned, KeptBy P v)
    (declares : ∀ v ∈ s.declared, ∀ store x, P store → P (store.upsert v x)) (last : Value) (w : World)
    (before : P w.store) (o : Outcome Value) (ended : s.interpret rounds last w = some o) :
    P o.2.store := by
  induction s using Stmt.induction generalizing last w o with
  | block body ih =>
      rw [Stmt.interpret] at ended
      refine Stmt.interpretAll_keeps ?_ before ended
      intro s member
      exact ih s member (fun v inside => assigns v (Stmt.mem_assignedIn.2 ⟨s, member, inside⟩))
        fun v inside => declares v (Stmt.mem_declaredIn.2 ⟨s, member, inside⟩)
  | declare v init =>
      cases ended
      exact init.declareAs_kept assigns (declares v List.mem_cons_self) before
  | expr e =>
      cases ended
      exact e.eval_kept assigns before
  | ifThen test yes ih =>
      obtain ⟨inTest, inYes⟩ := List.forall_mem_append.1 assigns
      rw [Stmt.interpret] at ended
      refine proceed_keeps (test.test_kept inTest w before) ?_ ended
      intro holds w between p ended
      cases holds with
      | true => exact ih inYes declares last w between p ended
      | false =>
          cases ended
          exact between
  | ifElse test yes no ihYes ihNo =>
      obtain ⟨inFirst, inNo⟩ := List.forall_mem_append.1 assigns
      obtain ⟨inTest, inYes⟩ := List.forall_mem_append.1 inFirst
      obtain ⟨yesDeclares, noDeclares⟩ := List.forall_mem_append.1 declares
      rw [Stmt.interpret] at ended
      refine proceed_keeps (test.test_kept inTest w before) ?_ ended
      intro holds w between p ended
      cases holds with
      | true => exact ihYes inYes yesDeclares last w between p ended
      | false => exact ihNo inNo noDeclares last w between p ended
  | whileLoop test body ih =>
      obtain ⟨inTest, inBody⟩ := List.forall_mem_append.1 assigns
      rw [Stmt.interpret] at ended
      exact repeatWhile_keeps (test.test_kept inTest) (ih inBody declares) before ended
  | doWhile body test ih =>
      obtain ⟨inBody, inTest⟩ := List.forall_mem_append.1 assigns
      rw [Stmt.interpret] at ended
      refine followedBy_keeps (ih inBody declares last w before) ?_ ended
      intro last w between p ended
      exact repeatWhile_keeps (test.test_kept inTest) (ih inBody declares) between ended
  | forTo v lower upper body ih =>
      obtain ⟨inBounds, inBody⟩ := List.forall_mem_append.1 assigns
      obtain ⟨inLower, inUpper⟩ := List.forall_mem_append.1 inBounds
      obtain ⟨declaresOwn, declaresInner⟩ := List.forall_mem_cons.1 declares
      rw [Stmt.interpret] at ended
      refine proceed_keeps (lower.declareAs_kept inLower declaresOwn before) ?_ ended
      intro _ w second p ended
      refine proceed_keeps (upper.eval_kept inUpper second) ?_ ended
      intro bound w third p ended
      have testKept := (belowValue v bound).test_kept (P := P) (List.forall_mem_nil _)
      refine repeatWhile_keeps testKept ?_ third ended
      intro last w before o ended
      refine followedBy_keeps (ih inBody declaresInner last w before) ?_ ended
      intro _ w between p ended
      cases ended
      refine (increment v).eval_kept ?_ between
      exact List.forall_mem_cons.2 ⟨.of_upsert declaresOwn, List.forall_mem_nil _⟩
  | goto target => cases ended; exact before
  | branch target test when => cases ended; exact before
  | label here => cases ended; exact before

end

end Bound

/-! ## What a run adds -/

/-- Whether a store lists what another one lists, and after that variables from a list. -/
def Store.Adds (vs : List Variable) (s t : Store) : Prop :=
  ∃ new, t.symbols = s.symbols ++ new ∧ ∀ v ∈ new, v ∈ vs

namespace Store.Adds

variable {vs : List Variable} {s t : Store}

theorem upsert (adds : s.Adds vs t) {v : Variable} (member : v ∈ vs) (x : Value) :
    s.Adds vs (t.upsert v x) := by
  obtain ⟨new, same, all⟩ := adds
  rw [Store.Adds, symbols_upsert]
  split
  · exact ⟨new, same, all⟩
  · refine ⟨new ++ [v], by rw [same, List.append_assoc], ?_⟩
    intro u inside
    rcases List.mem_append.1 inside with before | last
    · exact all u before
    · rw [List.mem_singleton.1 last]
      exact member

theorem contains (adds : s.Adds vs t) {id : Nat} (apart : ∀ v ∈ vs, v.id ≠ id) :
    t.contains id = s.contains id := by
  obtain ⟨new, same, all⟩ := adds
  rw [Bool.eq_iff_iff, contains_iff_symbols, contains_iff_symbols, same]
  constructor
  · rintro ⟨v, member, number⟩
    rcases List.mem_append.1 member with old | added
    · exact ⟨v, old, number⟩
    · exact absurd number (apart v (all v added))
  · rintro ⟨v, member, number⟩
    exact ⟨v, List.mem_append.2 (.inl member), number⟩

end Store.Adds

namespace Bound

theorem Stmt.interpret_adds {rounds : Nat} {s : Stmt} {last : Value} {w : World} {o : Outcome Value}
    (ended : s.interpret rounds last w = some o) : w.store.Adds s.declared o.2.store := by
  refine s.interpret_keeps (P := fun t => w.store.Adds s.declared t) ?_ ?_ last w ?_ o ended
  · rintro v - t t' x assigned ⟨new, added, all⟩
    exact ⟨new, (Store.symbols_assign? assigned).trans added, all⟩
  · intro v member t x adds
    exact adds.upsert member x
  · refine ⟨[], (List.append_nil _).symm, ?_⟩
    intro v member
    cases member

/-- A statement adds the variable that it leaves, if there is no slot with its number; what else it
adds is not looked at. -/
theorem Stmt.interpret_listing (seen : Nat → Bool) {rounds : Nat} {s : Stmt} {last x : Value}
    {w w' : World} (kept : ∀ v ∈ s.leaves, seen v.id = true)
    (dropped : s.leaves = [] → ∀ v ∈ s.declared, seen v.id = false)
    (ended : s.interpret rounds last w = some (.ok x, w')) :
    w'.store.symbols.filter (fun v => seen v.id) =
      w.store.symbols.filter (fun v => seen v.id) ++
        s.leaves.filter fun v => !w.store.contains v.id := by
  have others : s.leaves = [] → w'.store.symbols.filter (fun v => seen v.id) =
      w.store.symbols.filter (fun v => seen v.id) ++
        s.leaves.filter fun v => !w.store.contains v.id := by
    intro none
    obtain ⟨new, same, all⟩ := Stmt.interpret_adds ended
    have unseen : new.filter (fun v => seen v.id) = [] := by
      rw [List.filter_eq_nil_iff]
      intro v member
      rw [dropped none v (all v member)]
      exact Bool.false_ne_true
    rw [none, same, List.filter_append, unseen]
    rfl
  cases s with
  | declare v init =>
      have symbols := init.eval_symbols w
      rw [Stmt.interpret, Expr.declareAs] at ended
      generalize init.eval w = o at symbols ended
      obtain ⟨result, w₁⟩ := o
      cases result with
      | error f => cases ended
      | ok y =>
          cases ended
          have same : w₁.store.contains v.id = w.store.contains v.id := by
            rw [Bool.eq_iff_iff, Store.contains_iff_symbols, Store.contains_iff_symbols, symbols]
          show (w₁.store.upsert v x).symbols.filter _ = _ ++ [v].filter _
          rw [Store.symbols_upsert, symbols, same]
          have here := kept v List.mem_cons_self
          cases stored : w.store.contains v.id with
          | true => simp [stored]
          | false => simp [stored, here]
  | _ => exact others rfl

/-- Statements add the variables that they leave in order, apart from those with slots. -/
theorem Stmt.interpretAll_listing (seen : Nat → Bool) {rounds : Nat} {body : List Stmt}
    {last x : Value} {w w' : World} (ids : ((Stmt.declaredIn body).map (·.id)).Nodup)
    (kept : ∀ v ∈ leavesOf body, seen v.id = true)
    (dropped : ∀ s ∈ body, s.leaves = [] → ∀ v ∈ s.declared, seen v.id = false)
    (ended : Stmt.interpretAll rounds body last w = some (.ok x, w')) :
    w'.store.symbols.filter (fun v => seen v.id) =
      w.store.symbols.filter (fun v => seen v.id) ++
        (leavesOf body).filter fun v => !w.store.contains v.id := by
  induction body generalizing last w with
  | nil =>
      cases ended
      exact (List.append_nil _).symm
  | cons s ss ih =>
      rw [Stmt.interpretAll] at ended
      rw [Stmt.declaredIn, List.map_append, List.nodup_append] at ids
      obtain ⟨-, idsRest, apart⟩ := ids
      cases first : s.interpret rounds last w with
      | none =>
          rw [first] at ended
          cases ended
      | some o =>
      rw [first] at ended
      obtain ⟨result, w₁⟩ := o
      cases result with
      | error f => cases ended
      | ok y =>
          have here := Stmt.interpret_listing seen
            (fun v member => kept v (List.mem_append.2 (.inl member)))
            (dropped s List.mem_cons_self) first
          have rest := ih idsRest (fun v member => kept v (List.mem_append.2 (.inr member)))
            (fun s member => dropped s (List.mem_cons_of_mem _ member)) ended
          have same : (leavesOf ss).filter (fun v => !w₁.store.contains v.id) =
              (leavesOf ss).filter fun v => !w.store.contains v.id := by
            apply List.filter_congr
            intro v member
            have adds := Stmt.interpret_adds first
            rw [adds.contains fun u declared number => ?_]
            refine apart u.id (List.mem_map_of_mem declared) v.id ?_ number
            exact List.mem_map_of_mem ((leavesOf_sublist ss).subset member)
          rw [rest, here, same, List.append_assoc, ← List.filter_append]
          rfl

/-- What is declared inside a statement is not left by any. -/
theorem not_mem_leavesOf {body : List Stmt} (ids : ((Stmt.declaredIn body).map (·.id)).Nodup)
    {s : Stmt} (inside : s ∈ body) (none : s.leaves = []) {v : Variable} (declared : v ∈ s.declared) :
    v.id ∉ (leavesOf body).map (·.id) := by
  induction body with
  | nil => cases inside
  | cons first ss ih =>
      rw [Stmt.declaredIn, List.map_append, List.nodup_append] at ids
      obtain ⟨-, idsRest, apart⟩ := ids
      have leaves : (leavesOf (first :: ss)).map (·.id) =
          first.leaves.map (·.id) ++ (leavesOf ss).map (·.id) := List.map_append
      rw [leaves, List.mem_append]
      rcases List.mem_cons.1 inside with rfl | later
      · rintro (here | there)
        · rw [none] at here
          cases here
        · exact apart v.id (List.mem_map_of_mem declared) v.id
            (((leavesOf_sublist ss).map _).subset there) rfl
      · rintro (here | there)
        · refine apart v.id (((Stmt.leaves_sublist first).map _).subset here) v.id ?_ rfl
          exact List.mem_map_of_mem (Stmt.mem_declaredIn.2 ⟨s, later, declared⟩)
        · exact ih idsRest later there

end Bound

/-! ## The store after a submission -/

/-- The variables of a store that have numbers of some variables. -/
def Store.among (s : Store) (vs : List Variable) : List Variable :=
  s.symbols.filter fun u => vs.any (·.id = u.id)

namespace Store

theorem among_eq (s : Store) (vs : List Variable) :
    s.among vs = (s.retain fun slot => vs.any (·.id = slot.symbol.id)).symbols := by
  unfold among retain symbols
  rw [List.filter_map]
  rfl

theorem symbols_prune (s : Store) (chain : List Submission) :
    (s.prune chain).symbols = s.among (chainVariables chain) :=
  (s.among_eq _).symm

theorem mem_among {s : Store} {vs : List Variable} {u : Variable} :
    u ∈ s.among vs ↔ u ∈ s.symbols ∧ ∃ v ∈ vs, v.id = u.id := by
  rw [among, List.mem_filter, Variable.any_id]

/-- Slots with numbers of some variables can be picked before or after those below a bound for
them. -/
theorem retain_below {c : Nat} (s : Store) {vs : List Variable} (low : ∀ v ∈ vs, v.id < c) :
    ((s.below c).retain fun slot => vs.any (·.id = slot.symbol.id)) =
      s.retain fun slot => vs.any (·.id = slot.symbol.id) := by
  unfold below retain
  rw [List.filter_filter]
  congr 1
  apply List.filter_congr
  intro slot _
  cases listed : vs.any (·.id = slot.symbol.id) with
  | false => rfl
  | true => simp [Variable.lt_of_any low listed]

theorem among_below {c : Nat} (s : Store) {vs : List Variable} (low : ∀ v ∈ vs, v.id < c) :
    (s.below c).among vs = s.among vs := by
  rw [among_eq, among_eq, retain_below s low]

theorem contains_below {c id : Nat} (s : Store) (low : id < c) :
    (s.below c).contains id = s.contains id := by
  have same := contains_view (Renaming.injects_refl fun i => decide (i < c)) s (decide_eq_true low)
  rwa [view_refl] at same

end Store

namespace Session

variable {s : Session} {tree : Syntax.Tree} {body : List Stmt}

theorem Checked.idsBelow (checked : s.Checked (s.attempt tree) body) (sound : s.Sound) :
    (Stmt.block body).IdsBelow (s.attempt tree).nextId := by
  refine Bound.Stmt.Typed.ids (P := fun id => id < (s.attempt tree).nextId) (s := .block body) _
    checked.typed ?_ ?_
  · intro id member
    obtain ⟨v, inside, rfl⟩ := List.mem_map.1 member
    exact Nat.lt_of_lt_of_le (sound.below v inside) checked.le
  · intro v member
    exact (checked.declared_low member).2

/-- The nested run of a submission whose program stops. -/
theorem Checked.interpreted (checked : s.Checked (s.attempt tree) body) (sound : s.Sound) {fuel : Nat}
    {p : Outcome Value}
    (ended : runProgram fuel (s.attempt tree).lowered.program s.world = some p) :
    ∃ rounds, Stmt.interpretAll rounds body .void (s.world.below (s.attempt tree).nextId) =
      some (p.below (s.attempt tree).nextId) := by
  rw [checked.lowered] at ended
  have structured : (Stmt.block body).isStructured = true := Bound.Stmt.Typed.isStructured checked.typed
  exact (Bound.Stmt.interpret_iff_run structured (checked.idsBelow sound)).2 ⟨fuel, p, ended, rfl⟩

theorem Checked.nodup (checked : s.Checked (s.attempt tree) body) :
    ((Stmt.declaredIn body).map (·.id)).Nodup := by
  rw [checked.ids]
  exact List.nodup_range'

/-- What is declared inside a statement of a submission is not among the top-level variables. -/
theorem Checked.dropped (checked : s.Checked (s.attempt tree) body) (sound : s.Sound) :
    ∀ stmt ∈ body, stmt.leaves = [] → ∀ v ∈ stmt.declared,
      (chainVariables (s.attempt tree).chain).any (·.id = v.id) = false := by
  intro stmt inside none v declared
  have declaredIn := Bound.Stmt.mem_declaredIn.2 ⟨stmt, inside, declared⟩
  rw [checked.chainVariables_eq, List.any_eq_false]
  intro u member same
  have number : u.id = v.id := of_decide_eq_true same
  rcases List.mem_append.1 member with old | new
  · have low := sound.below u old
    have high := (checked.declared_low declaredIn).1
    omega
  · refine Bound.not_mem_leavesOf checked.nodup inside none declared ?_
    rw [← number]
    exact List.mem_map_of_mem new

/-- After a submission that gives a value, the top-level variables in the store are those that had a
slot before it, as they stand there, and then the others in order. -/
theorem Checked.listing (checked : s.Checked (s.attempt tree) body) (sound : s.Sound) {fuel : Nat}
    {x : Value} {w : World}
    (ended : runProgram fuel (s.attempt tree).lowered.program s.world = some (.ok x, w)) :
    w.store.among (chainVariables (s.attempt tree).chain) =
      s.world.store.among (chainVariables (s.attempt tree).chain) ++
        (chainVariables (s.attempt tree).chain).filter fun v => !s.world.store.contains v.id := by
  obtain ⟨rounds, ran⟩ := checked.interpreted sound ended
  have chain := checked.chainVariables_eq
  have kept : ∀ v ∈ leavesOf body,
      (chainVariables (s.attempt tree).chain).any (·.id = v.id) = true := by
    intro v member
    rw [chain]
    exact Variable.any_of_mem (List.mem_append.2 (.inr member))
  have low := checked.low sound.numbered
  have added := Bound.Stmt.interpretAll_listing
    (fun id => (chainVariables (s.attempt tree).chain).any (·.id = id)) checked.nodup kept
    (checked.dropped sound) ran
  -- every variable of the chain had a slot already
  have old : (chainVariables s.chain).filter (fun v => !s.world.store.contains v.id) = [] := by
    rw [List.filter_eq_nil_iff]
    intro v member
    obtain ⟨y, stored, -⟩ := sound.fits v member
    simp [Store.contains_of_get? stored]
  have new : (leavesOf body).filter (fun v => !(s.world.store.below (s.attempt tree).nextId).contains v.id) =
      (chainVariables (s.attempt tree).chain).filter fun v => !s.world.store.contains v.id := by
    rw [chain, List.filter_append, old, List.nil_append]
    apply List.filter_congr
    intro v member
    rw [Store.contains_below _ (low v (by rw [chain]; exact List.mem_append.2 (.inr member)))]
  have before := s.world.store.among_below low
  have after := w.store.among_below low
  rw [← after, ← before, ← new]
  exact added

end Session

/-! ## Stores that list the top-level variables -/

/-- A variable without the place of its declaration. -/
def Variable.bare (v : Variable) : Variable := { v with span := none }

theorem Variable.of_bare {u v : Variable} (same : u.bare = v.bare) : u.id = v.id ∧ u.ty = v.ty := by
  obtain ⟨id, -, ty, -, -⟩ := Variable.mk.inj same
  exact ⟨id, ty⟩

/-- Whether the store and the list of top-level variables agree: the slots are those of the
variables, in order, each with a value of its type, and names stand for the same in both. -/
structure Session.Lists (s : Session) : Prop where
  symbols : s.world.store.symbols.map Variable.bare = (chainVariables s.chain).map Variable.bare
  values : ∀ slot ∈ s.world.store.slots, slot.value.ty = slot.symbol.ty
  vars : s.world.store.slots.map (fun slot => (slot.symbol.bare, some slot.value)) =
    s.vars.map fun entry => (entry.1.bare, entry.2)
  names : ∀ name,
    (s.world.store.lookup? name).map (fun slot => (slot.symbol.bare, some slot.value)) =
      (s.vars.reverse.find? (·.1.name = name)).map fun entry => (entry.1.bare, entry.2)

theorem Store.get?_of_mem {s : Store} (ids : (s.symbols.map (·.id)).Nodup) {slot : Slot}
    (member : slot ∈ s.slots) : s.get? slot.symbol.id = some slot.value := by
  rw [← Store.ids_eq] at ids
  rw [Store.get?_eq_slot?, Store.slot?_of_mem ids member, Option.map_some]

namespace Session

variable {s : Session}

theorem Sound.lists (sound : s.Sound)
    (symbols : s.world.store.symbols.map Variable.bare = (chainVariables s.chain).map Variable.bare) :
    s.Lists := by
  have ids : (s.world.store.symbols.map (·.id)).Nodup := by
    have same := congrArg (List.map Variable.id) symbols
    rw [List.map_map, List.map_map] at same
    exact same.symm ▸ sound.ids
  have vars : s.world.store.slots.map (fun slot => (slot.symbol.bare, some slot.value)) =
      s.vars.map fun entry => (entry.1.bare, entry.2) := by
    have found : s.world.store.slots.map (fun slot => (slot.symbol.bare, some slot.value)) =
        (s.world.store.symbols.map Variable.bare).map fun v => (v, s.world.store.get? v.id) := by
      rw [Store.symbols, List.map_map, List.map_map]
      apply List.map_congr_left
      intro slot member
      exact congrArg (Prod.mk slot.symbol.bare) (Store.get?_of_mem ids member).symm
    rw [found, symbols, Session.vars, List.map_map, List.map_map]
    rfl
  refine ⟨symbols, ?_, vars, ?_⟩
  · intro slot member
    have listed : slot.symbol.bare ∈ (chainVariables s.chain).map Variable.bare := by
      rw [← symbols]
      exact List.mem_map_of_mem (List.mem_map_of_mem member)
    obtain ⟨v, inChain, same⟩ := List.mem_map.1 listed
    obtain ⟨y, stored, ty⟩ := sound.fits v inChain
    rw [(Variable.of_bare same).1, Store.get?_of_mem ids member] at stored
    cases stored
    exact ty.trans (Variable.of_bare same).2
  · intro name
    have reversed := congrArg (fun l => l.reverse.find? fun entry => entry.1.name = name) vars
    simp only [← List.map_reverse, List.find?_map] at reversed
    exact reversed

/-- What stands in slots already, followed by the rest of some variables, is all of them if and only
if it is where they begin. -/
theorem listing_iff_prefix {store : Store} {vs : List Variable} (ids : (vs.map (·.id)).Nodup) :
    (store.among vs ++ vs.filter fun v => !store.contains v.id).map Variable.bare =
        vs.map Variable.bare ↔
      (store.among vs).map Variable.bare <+: vs.map Variable.bare := by
  constructor
  · intro same
    rw [List.map_append] at same
    exact ⟨_, same⟩
  · rintro ⟨rest, same⟩
    obtain ⟨front, back, rfl, frontSame, -⟩ := List.map_eq_append_iff.1 same.symm
    have stored : front.filter (fun v => !store.contains v.id) = [] := by
      rw [List.filter_eq_nil_iff]
      intro v member
      have listed : v.bare ∈ (store.among (front ++ back)).map Variable.bare :=
        frontSame ▸ List.mem_map_of_mem member
      obtain ⟨u, among, sameBare⟩ := List.mem_map.1 listed
      have found : store.contains v.id = true :=
        Store.contains_iff_symbols.2 ⟨u, (Store.mem_among.1 among).1, (Variable.of_bare sameBare).1⟩
      simp [found]
    have fresh : back.filter (fun v => !store.contains v.id) = back := by
      rw [List.filter_eq_self]
      intro v member
      rw [Bool.not_eq_true', ← Bool.not_eq_true]
      intro found
      -- its slot would be one of those in front
      obtain ⟨u, inside, number⟩ := Store.contains_iff_symbols.1 found
      have among : u ∈ store.among (front ++ back) := by
        rw [Store.mem_among]
        exact ⟨inside, v, List.mem_append.2 (.inr member), number.symm⟩
      have listed : u.bare ∈ front.map Variable.bare := frontSame ▸ List.mem_map_of_mem among
      obtain ⟨v', member', sameBare⟩ := List.mem_map.1 listed
      rw [List.map_append, List.nodup_append] at ids
      exact ids.2.2 v'.id (List.mem_map_of_mem member') v.id (List.mem_map_of_mem member)
        ((Variable.of_bare sameBare).1.trans number)
    rw [List.filter_append, stored, fresh, List.nil_append, List.map_append, List.map_append,
      ← frontSame]

/-- The variables in the store after a submission that gives a value. -/
theorem Sound.submit_symbols (sound : s.Sound) {s' : Session} {fuel : Nat} {text : String} {x : Value}
    (submitted : s.submit fuel (.ofText text) = some (.value x, s')) :
    s'.world.store.symbols = s.world.store.among (chainVariables s'.chain) ++
      (chainVariables s'.chain).filter fun v => !s.world.store.contains v.id := by
  obtain ⟨-, same, -⟩ | ⟨w, clean, ⟨f, -, same, -⟩ | ⟨y, ended, -, rfl⟩⟩ := submit_cases submitted
  · cases same
  · cases same
  · obtain ⟨body, checked⟩ := sound.checked_ofText clean
    exact (Store.symbols_prune _ _).trans (checked.listing sound ended)

/-- Once a submission has joined, the slots have numbers below the counter. -/
def Settled (s : Session) : Prop :=
  s.chain ≠ [] → ∀ v ∈ s.world.store.symbols, v.id < s.nextId

theorem Sound.submit_settled (sound : s.Sound) (settled : s.Settled) {s' : Session} {fuel : Nat}
    {text : String} {reply : Reply}
    (submitted : s.submit fuel (.ofText text) = some (reply, s')) : s'.Settled := by
  have pruned : ∀ {body : List Stmt} {w : World},
      s.Checked (s.attempt (.ofText text)) body →
      ∀ v ∈ (w.store.prune (s.attempt (.ofText text)).chain).symbols,
        v.id < (s.attempt (.ofText text)).lowered.nextId := by
    intro body w checked v member
    rw [Store.symbols_prune, Store.mem_among] at member
    obtain ⟨-, u, listed, number⟩ := member
    rw [← number]
    exact Nat.lt_of_lt_of_le (checked.low sound.numbered u listed) checked.lowered_le
  obtain ⟨-, -, rfl⟩ | ⟨w, clean, ⟨f, ended, -, rfl⟩ | ⟨x, ended, -, rfl⟩⟩ := submit_cases submitted
  · unfold Session.abandon
    split
    · exact settled
    · intro chained v member
      exact Nat.lt_of_lt_of_le (settled chained v member)
        (Bound.bindProgram_le _ _ (Syntax.Tree.ofText text).source _)
  · obtain ⟨body, checked⟩ := sound.checked_ofText clean
    unfold Session.abandon
    split
    · intro chained
      exact absurd (List.isEmpty_iff.1 ‹_›) chained
    · intro chained v member
      exact pruned checked v member
  · obtain ⟨body, checked⟩ := sound.checked_ofText clean
    intro chained v member
    exact pruned checked v member

theorem Reachable.settled (reachable : s.Reachable) : s.Settled := by
  induction reachable with
  | start w empty => exact fun chained => absurd rfl chained
  | reset h ih => exact fun chained => absurd rfl chained
  | streams h w same ih => exact fun chained v member => ih chained v (same ▸ member)
  | submit h submitted ih => exact h.sound.submit_settled ih submitted

/-- What a store has to list for a chain. -/
def Aligned (s : Session) : Prop :=
  (s.world.store.among (chainVariables s.chain)).map Variable.bare =
    (chainVariables s.chain).map Variable.bare

/-- Later submissions do not get in the way of a chain. -/
theorem Sound.prefix_iff_aligned (sound : s.Sound) {new : List Variable}
    (ids : ((chainVariables s.chain ++ new).map (·.id)).Nodup)
    (apart : ∀ v ∈ new, ∀ u ∈ s.world.store.symbols, v.id ≠ u.id) :
    (s.world.store.among (chainVariables s.chain ++ new)).map Variable.bare <+:
        (chainVariables s.chain ++ new).map Variable.bare ↔ s.Aligned := by
  have same : s.world.store.among (chainVariables s.chain ++ new) =
      s.world.store.among (chainVariables s.chain) := by
    apply List.filter_congr
    intro u member
    have none : new.any (·.id = u.id) = false := by
      rw [List.any_eq_false]
      intro v inside number
      exact apart v inside u member (of_decide_eq_true number)
    rw [List.any_append, none, Bool.or_false]
  rw [same, Aligned]
  constructor
  · intro front
    have ids' : ((s.world.store.among (chainVariables s.chain)).map (·.id)).Nodup := by
      have sub := front.sublist.map Variable.id
      rw [List.map_map, List.map_map] at sub
      exact sub.nodup ids
    have perm : ((s.world.store.among (chainVariables s.chain)).map (·.id)).Perm
        ((chainVariables s.chain).map (·.id)) := by
      refine (List.perm_ext_iff_of_nodup ids' sound.ids).2 fun id => ⟨?_, ?_⟩
      · intro member
        obtain ⟨u, among, rfl⟩ := List.mem_map.1 member
        obtain ⟨-, v, inside, number⟩ := Store.mem_among.1 among
        exact List.mem_map.2 ⟨v, inside, number⟩
      · intro member
        obtain ⟨v, inside, rfl⟩ := List.mem_map.1 member
        obtain ⟨x, stored, -⟩ := sound.fits v inside
        obtain ⟨u, listed, number⟩ := Store.contains_iff_symbols.1 (Store.contains_of_get? stored)
        exact List.mem_map.2 ⟨u, Store.mem_among.2 ⟨listed, v, inside, number.symm⟩, number⟩
    have length : ((s.world.store.among (chainVariables s.chain)).map Variable.bare).length =
        ((chainVariables s.chain).map Variable.bare).length := by
      rw [List.length_map, List.length_map, ← List.length_map (f := Variable.id), perm.length_eq,
        List.length_map]
    have whole : (chainVariables s.chain).map Variable.bare <+:
        (chainVariables s.chain ++ new).map Variable.bare := by
      rw [List.map_append]
      exact List.prefix_append _ _
    exact (List.prefix_of_prefix_length_le front whole (Nat.le_of_eq length)).eq_of_length
      length
  · intro aligned
    rw [aligned, List.map_append]
    exact List.prefix_append _ _

/-- After a submission that gives a value, the store lists the top-level variables if and only if
the slots from before it that have numbers of such variables are where they begin.  For a chain with
submissions that means that the slots of the chain were right already. -/
theorem lists_iff {s s' : Session} (reachable : s.Reachable) {fuel : Nat} {text : String} {x : Value}
    (submitted : s.submit fuel (.ofText text) = some (.value x, s')) :
    (s'.Lists ↔ (s.world.store.among (chainVariables s'.chain)).map Variable.bare <+:
        (chainVariables s'.chain).map Variable.bare) ∧
      (s.chain ≠ [] → (s'.Lists ↔
        (s.world.store.among (chainVariables s.chain)).map Variable.bare =
          (chainVariables s.chain).map Variable.bare)) := by
  have sound := reachable.sound
  have after := sound.submit submitted
  have symbols := sound.submit_symbols submitted
  have first : s'.Lists ↔ (s.world.store.among (chainVariables s'.chain)).map Variable.bare <+:
      (chainVariables s'.chain).map Variable.bare := by
    rw [← listing_iff_prefix after.ids, ← symbols]
    exact ⟨Lists.symbols, after.lists⟩
  refine ⟨first, fun chained => first.trans ?_⟩
  obtain ⟨-, same, -⟩ | ⟨w, clean, ⟨f, -, same, -⟩ | ⟨y, ended, -, rfl⟩⟩ := submit_cases submitted
  · cases same
  · cases same
  · obtain ⟨body, checked⟩ := sound.checked_ofText clean
    have chain : chainVariables (s.attempt (.ofText text)).chain = _ := checked.chainVariables_eq
    have ids : ((chainVariables (s.attempt (.ofText text)).chain).map (·.id)).Nodup := after.ids
    show (s.world.store.among (chainVariables (s.attempt (.ofText text)).chain)).map _ <+:
      (chainVariables (s.attempt (.ofText text)).chain).map _ ↔ _
    rw [chain] at ids ⊢
    apply sound.prefix_iff_aligned ids
    intro v new u stored
    have low := reachable.settled chained u stored
    have high := (checked.declared_low ((Bound.leavesOf_sublist body).subset new)).1
    omega

/-- Whether an answer is a value, and something holds of it and of the session after it. -/
def answers (holds : Value → Session → Bool) : Option (Reply × Session) → Bool
  | some (.value x, s) => holds x s
  | _ => false

theorem exists_value {answer : Option (Reply × Session)} {holds : Value → Session → Bool}
    (found : answers holds answer = true) :
    ∃ x s', answer = some (.value x, s') ∧ holds x s' = true := by
  cases answer with
  | none => cases found
  | some a =>
      obtain ⟨reply, s'⟩ := a
      cases reply with
      | value x => exact ⟨x, s', rfl, found⟩
      | refused ds => cases found
      | fault f => cases found

/-- A variable that is declared after those of the sample. -/
theorem sample_lists : ∃ x s',
    sample.submit 50 (.ofText "var y = x") = some (.value x, s') ∧ s'.Lists := by
  have chained : sample.chain ≠ [] := by decide +kernel
  have aligned : (sample.world.store.among (chainVariables sample.chain)).map Variable.bare =
      (chainVariables sample.chain).map Variable.bare := by decide +kernel
  obtain ⟨x, s', submitted, -⟩ : ∃ x s',
      sample.submit 50 (.ofText "var y = x") = some (.value x, s') ∧ true = true :=
    exists_value (by decide +kernel)
  exact ⟨x, s', submitted, ((lists_iff reachable_sample submitted).2 chained).2 aligned⟩

/-- The session after a first submission that divides by zero, which leaves a slot for its
variable. -/
def stumbled : Session :=
  ((Session.start (.start [] (.ofSeed 0))).submit 50 (.ofText "var x = 1; 1 / 0")).elim
    (.start (.start [] (.ofSeed 0))) (·.2)

theorem reachable_stumbled : stumbled.Reachable := by
  have first : (Session.start (.start [] (.ofSeed 0))).Reachable := .start _ rfl
  unfold stumbled
  cases submitted : (Session.start (.start [] (.ofSeed 0))).submit 50 (.ofText "var x = 1; 1 / 0") with
  | none => exact first
  | some answer => exact .submit first submitted

/-- The next variable is stored in that slot, under the old name and with the old type. -/
theorem stumbled_not_lists : stumbled.Reachable ∧
    ∃ x s', stumbled.submit 50 (.ofText "var y = \"a\"") = some (.value x, s') ∧
      s'.world.store.symbols.map (fun v => (v.name, v.ty)) = [("x", .int)] ∧
      (chainVariables s'.chain).map (fun v => (v.name, v.ty)) = [("y", .string)] ∧ ¬ s'.Lists := by
  obtain ⟨x, s', submitted, both⟩ : ∃ x s',
      stumbled.submit 50 (.ofText "var y = \"a\"") = some (.value x, s') ∧
        (decide (s'.world.store.symbols.map (fun v => (v.name, v.ty)) = [("x", .int)]) &&
          decide ((chainVariables s'.chain).map (fun v => (v.name, v.ty)) = [("y", .string)])) = true :=
    exists_value (by decide +kernel)
  rw [Bool.and_eq_true, decide_eq_true_eq, decide_eq_true_eq] at both
  refine ⟨reachable_stumbled, x, s', submitted, both.1, both.2, ?_⟩
  intro lists
  have same := congrArg (List.map fun v => (v.name, v.ty)) lists.symbols
  rw [List.map_map, List.map_map] at same
  have agree : [("x", Ty.int)] = [("y", Ty.string)] := both.1.symm.trans (same.trans both.2)
  exact absurd agree (by decide)

end Session

end ScriptLang
