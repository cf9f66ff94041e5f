/-
# ScriptLang.Proofs.Sessions -- no submission of a session goes wrong

A session is reached from an empty one by submitting texts and by resetting it,
with any streams in between (`Session.Reachable`).  Along the way its top-level
variables have numbers of their own below the counter, and values of their types
(`Session.Sound`); what a failed submission leaves in the store does not matter,
since nothing refers to it.

So every submission without diagnostics is a program in which types fit
(`Session.Checked.typedProgram`), and does not go wrong.
-/
import ScriptLang.Proofs.Binding
import ScriptLang.Proofs.SafeCode
import ScriptLang.Session

namespace ScriptLang

set_option autoImplicit false

open ScriptLang.Bound (Stmt Expr Submission Binder TypedProgram)

/-- The sessions that submissions and resets lead to. -/
inductive Session.Reachable : Session → Prop where
  | start (w : World) (empty : w.store = .empty) : Reachable (.start w)
  | reset {s : Session} (h : Reachable s) : Reachable s.reset
  /-- Other streams, and other random words. -/
  | streams {s : Session} (h : Reachable s) (w : World) (same : w.store = s.world.store) :
      Reachable { s with world := w }
  | submit {s s' : Session} (h : Reachable s) {fuel : Nat} {text : String} {reply : Reply}
      (submitted : s.submit fuel (.ofText text) = some (reply, s')) : Reachable s'

/-! ## Types by number -/

/-- The type of the variable with a number; numbers of none of the variables are those of hidden
ones, which are integers. -/
def typeOf (vs : List Variable) (id : Nat) : Ty := ((vs.find? (·.id = id)).map (·.ty)).getD .int

theorem typeOf_eq {vs : List Variable} (ids : (vs.map (·.id)).Nodup) {v : Variable} (member : v ∈ vs) :
    typeOf vs v.id = v.ty := by
  induction vs with
  | nil => cases member
  | cons u us ih =>
      rw [List.map_cons, List.nodup_cons] at ids
      unfold typeOf
      rw [List.find?_cons]
      rcases List.mem_cons.1 member with rfl | later
      · simp
      · have other : ¬ u.id = v.id := fun same => ids.1 (same ▸ List.mem_map_of_mem later)
        simp only [other, decide_false]
        exact ih ids.2 later

theorem typeOf_eq_int {vs : List Variable} {id : Nat} (new : ∀ v ∈ vs, v.id ≠ id) :
    typeOf vs id = .int := by
  have none : vs.find? (·.id = id) = none := by
    rw [List.find?_eq_none]
    intro v member
    simp [new v member]
  rw [typeOf, none]
  rfl

/-! ## Chains -/

theorem chainVariables_cons (newest : Submission) (older : List Submission) :
    chainVariables (newest :: older) = chainVariables older ++ newest.vars := by
  simp [chainVariables]

theorem builtins_vars : Scope.builtins.vars = [] := by decide

theorem builtins_functions : ∀ f ∈ Scope.builtins.functions, ∃ b : Builtin, f = b.function := by
  have all : Scope.builtins.functions = Builtin.all.map Builtin.function := by decide
  rw [all]
  intro f member
  obtain ⟨b, -, rfl⟩ := List.mem_map.1 member
  exact ⟨b, rfl⟩

theorem frames_scopeAfter (chain : List Submission) :
    (Bound.scopeAfter chain).frames = chain.map Submission.frame ++ Scope.builtins.frames := by
  cases chain <;> rfl

theorem mem_vars_scopeAfter {chain : List Submission} {v : Variable} :
    v ∈ (Bound.scopeAfter chain).vars ↔ v ∈ chainVariables chain := by
  have none : ∀ frame ∈ Scope.builtins.frames, v ∉ frame.vars := by
    intro frame member stored
    have listed : v ∈ Scope.builtins.vars := List.mem_flatMap.2 ⟨frame, member, stored⟩
    rw [builtins_vars] at listed
    cases listed
  simp only [Scope.vars, frames_scopeAfter, chainVariables, List.mem_flatMap, List.mem_append,
    List.mem_map, List.mem_reverse]
  constructor
  · rintro ⟨frame, ⟨newest, member, rfl⟩ | member, stored⟩
    · exact ⟨newest, member, stored⟩
    · exact absurd stored (none frame member)
  · rintro ⟨newest, member, stored⟩
    exact ⟨newest.frame, .inl ⟨newest, member, rfl⟩, stored⟩

theorem functions_scopeAfter (chain : List Submission) :
    (Bound.scopeAfter chain).functions = Scope.builtins.functions := by
  have none : (chain.map Submission.frame).flatMap Frame.functions = [] := by
    rw [List.flatMap_eq_nil_iff]
    intro frame member
    obtain ⟨s, -, rfl⟩ := List.mem_map.1 member
    rfl
  rw [Scope.functions, frames_scopeAfter, List.flatMap_append, none]
  rfl

/-! ## Submissions -/

/-- The session with the world after the program of a submission, of which top-level variables are
kept. -/
def Session.after (s : Session) (a : Attempt) (w : World) : Session :=
  { s with world := { w with store := w.store.prune a.chain } }

/-- What submitting a tree can come to: it is refused, or its program stops with a fault or with a
value, with which it joins. -/
theorem Session.submit_cases {s s' : Session} {fuel : Nat} {tree : Syntax.Tree} {reply : Reply}
    (submitted : s.submit fuel tree = some (reply, s')) :
    ((s.attempt tree).diagnostics ≠ [] ∧ reply = .refused (s.attempt tree).diagnostics ∧
        s' = s.abandon (s.attempt tree).nextId) ∨
      ∃ w, (s.attempt tree).diagnostics = [] ∧
        ((∃ f, runProgram fuel (s.attempt tree).lowered.program s.world = some (.error f, w) ∧
            reply = .fault f ∧
            s' = (s.after (s.attempt tree) w).abandon (s.attempt tree).lowered.nextId) ∨
          ∃ x, runProgram fuel (s.attempt tree).lowered.program s.world = some (.ok x, w) ∧
            reply = .value x ∧
            s' = (s.after (s.attempt tree) w).join (s.attempt tree)
              (s.attempt tree).lowered.nextId) := by
  unfold submit evaluate at submitted
  dsimp only at submitted
  cases found : (s.attempt tree).diagnostics with
  | cons d ds =>
      rw [found] at submitted
      cases submitted
      exact .inl ⟨by simp, rfl, rfl⟩
  | nil =>
      rw [found] at submitted
      obtain ⟨o, ended, same⟩ := Option.map_eq_some_iff.1 submitted
      match o, ended, same with
      | (.error f, w), ended, same =>
          cases same
          exact .inr ⟨w, rfl, .inl ⟨f, ended, rfl, rfl⟩⟩
      | (.ok x, w), ended, same =>
          cases same
          exact .inr ⟨w, rfl, .inr ⟨x, ended, rfl, rfl⟩⟩

/-- What holds of a session along the way. -/
structure Session.Sound (s : Session) : Prop where
  ids : ((chainVariables s.chain).map (·.id)).Nodup
  below : ∀ v ∈ chainVariables s.chain, v.id < s.nextId
  known : ∀ v ∈ chainVariables s.chain, v.ty ≠ .unknown
  fits : ∀ v ∈ chainVariables s.chain, ∃ x, s.world.store.get? v.id = some x ∧ x.ty = v.ty

/-- What binding needs to know of a session: its top-level variables have numbers of their own below
the counter, and types that are known. -/
structure Session.Numbered (s : Session) : Prop where
  ids : ((chainVariables s.chain).map (·.id)).Nodup
  below : ∀ v ∈ chainVariables s.chain, v.id < s.nextId
  known : ∀ v ∈ chainVariables s.chain, v.ty ≠ .unknown

/-- A submission without diagnostics, taken apart: its statements, the type of every variable, and
the top-level variables before it. -/
structure Session.Checked (s : Session) (a : Attempt) (body : List Stmt) : Prop where
  statement : a.submission.statement = .block body
  vars : a.submission.vars = Bound.leavesOf body
  ids : (Stmt.declaredIn body).map (·.id) = Bound.interval s.nextId a.nextId
  le : s.nextId ≤ a.nextId
  typed : Stmt.TypedAll (typeOf (chainVariables s.chain ++ Stmt.declaredIn body))
    ((chainVariables s.chain).map (·.id)) body
  known : ∀ v ∈ Bound.leavesOf body, v.ty ≠ .unknown

namespace Session

variable {s : Session}

/-- The numbers of the variables of a session and of a submission are all different. -/
theorem Numbered.nodup (numbered : s.Numbered) {declared : List Variable} {nextId : Nat}
    (ids : declared.map (·.id) = Bound.interval s.nextId nextId) :
    ((chainVariables s.chain ++ declared).map (·.id)).Nodup := by
  rw [List.map_append, ids, List.nodup_append]
  refine ⟨numbered.ids, List.nodup_range', ?_⟩
  intro id old id' new same
  obtain ⟨v, member, rfl⟩ := List.mem_map.1 old
  have low := numbered.below v member
  have high := (Bound.mem_interval.1 new).1
  omega

theorem Numbered.checked (numbered : s.Numbered) {tree : Syntax.Tree}
    (whole : Syntax.Stmt.WholeAll tree.root.statements)
    (clean : (s.attempt tree).submission.diagnostics = []) :
    ∃ body, s.Checked (s.attempt tree) body := by
  obtain ⟨body, b', bound, statement, vars, nextId⟩ := Bound.bindProgram_wellBound whole clean
  have ids : (Stmt.declaredIn body).map (·.id) =
      Bound.interval s.nextId (s.attempt tree).nextId := by
    rw [bound.ids]
    exact congrArg (Bound.interval s.nextId) nextId.symm
  have nodup := numbered.nodup ids
  have fits : (Binder.atStart s.chain s.nextId).scope.Fits
      (typeOf (chainVariables s.chain ++ Stmt.declaredIn body))
      ((chainVariables s.chain).map (·.id)) := by
    refine Scope.Fits.push ⟨?_, ?_⟩
    · intro v member
      rw [mem_vars_scopeAfter] at member
      refine ⟨List.mem_map_of_mem member, ?_, numbered.known v member⟩
      exact (typeOf_eq nodup (List.mem_append.2 (.inl member))).symm
    · intro f member
      rw [functions_scopeAfter] at member
      exact builtins_functions f member
  obtain ⟨typed, known⟩ := bound.typed _ _ fits fun v member =>
    (typeOf_eq nodup (List.mem_append.2 (.inr member))).symm
  exact ⟨body, statement, vars, ids, Bound.bindProgram_le _ _ tree.source _, typed, known⟩

theorem Sound.numbered (sound : s.Sound) : s.Numbered := ⟨sound.ids, sound.below, sound.known⟩

theorem Sound.nodup (sound : s.Sound) {declared : List Variable} {nextId : Nat}
    (ids : declared.map (·.id) = Bound.interval s.nextId nextId) :
    ((chainVariables s.chain ++ declared).map (·.id)).Nodup :=
  sound.numbered.nodup ids

/-- The types of the variables that a submission without diagnostics has to do with. -/
abbrev types (s : Session) (body : List Stmt) : Nat → Ty :=
  typeOf (chainVariables s.chain ++ Stmt.declaredIn body)

theorem Checked.declared_low {a : Attempt} {body : List Stmt} (checked : s.Checked a body)
    {v : Variable} (declared : v ∈ Stmt.declaredIn body) : s.nextId ≤ v.id ∧ v.id < a.nextId := by
  have listed : v.id ∈ (Stmt.declaredIn body).map (·.id) := List.mem_map_of_mem declared
  rw [checked.ids] at listed
  exact Bound.mem_interval.1 listed

theorem Checked.typedProgram {a : Attempt} {body : List Stmt} (checked : s.Checked a body)
    (sound : s.Sound) :
    TypedProgram (s.types body) ((chainVariables s.chain).map (·.id)) body a.nextId where
  typed := checked.typed
  hidden := by
    intro id above _
    apply typeOf_eq_int
    intro v member same
    rcases List.mem_append.1 member with old | new
    · have low := sound.below v old
      have le := checked.le
      omega
    · have low := (checked.declared_low new).2
      omega

theorem Checked.fitsAll {a : Attempt} {body : List Stmt} (checked : s.Checked a body)
    (sound : s.Sound) :
    s.world.store.FitsAll (s.types body) ((chainVariables s.chain).map (·.id)) := by
  intro id listed
  obtain ⟨v, member, rfl⟩ := List.mem_map.1 listed
  obtain ⟨x, stored, ty⟩ := sound.fits v member
  exact ⟨x, stored, ty.trans
    (typeOf_eq (sound.nodup checked.ids) (List.mem_append.2 (.inl member))).symm⟩

/-- The flat program of a submission without diagnostics. -/
theorem Checked.lowered {a : Attempt} {body : List Stmt} (checked : s.Checked a body) :
    a.lowered = Bound.lower (.block body) a.nextId := by
  rw [Attempt.lowered, checked.statement]

theorem Checked.lowered_le {a : Attempt} {body : List Stmt} (checked : s.Checked a body) :
    a.nextId ≤ a.lowered.nextId := by
  rw [checked.lowered, Bound.lower_nextId]
  exact (Bound.Stmt.supply_le (.block body) ⟨1, a.nextId⟩).2

theorem Checked.nextId_le {a : Attempt} {body : List Stmt} (checked : s.Checked a body) :
    s.nextId ≤ a.lowered.nextId :=
  Nat.le_trans checked.le checked.lowered_le

/-- What is left of the top-level variables when the program of a submission stops. -/
theorem Checked.result {a : Attempt} {body : List Stmt} (checked : s.Checked a body)
    (sound : s.Sound) {fuel : Nat} {o : Outcome Value}
    (ended : runProgram fuel a.lowered.program s.world = some o) :
    (∀ v ∈ chainVariables s.chain, ∃ x, o.2.store.get? v.id = some x ∧ x.ty = v.ty) ∧
      (∀ f, o.1 = .error f → f.Ordinary) ∧
      ∀ x, o.1 = .ok x → ∀ v ∈ a.submission.vars, ∃ x, o.2.store.get? v.id = some x ∧ x.ty = v.ty := by
  rw [checked.lowered] at ended
  have nodup := sound.nodup checked.ids
  obtain ⟨old, ordinary, new⟩ :=
    (checked.typedProgram sound).result (checked.fitsAll sound) ended
  refine ⟨?_, ordinary, ?_⟩
  · intro v member
    obtain ⟨y, stored, ty⟩ := old v.id (List.mem_map_of_mem member)
    exact ⟨y, stored, ty.trans (typeOf_eq nodup (List.mem_append.2 (.inl member)))⟩
  · intro x value v member
    rw [checked.vars] at member
    obtain ⟨y, stored, ty⟩ := new x value v.id (List.mem_map_of_mem member)
    have declared := (Bound.leavesOf_sublist body).subset member
    exact ⟨y, stored, ty.trans (typeOf_eq nodup (List.mem_append.2 (.inr declared)))⟩

/-! ## What submissions keep -/

theorem get?_prune (store : Store) {chain : List Submission} {v : Variable}
    (member : v ∈ chainVariables chain) : (store.prune chain).get? v.id = store.get? v.id := by
  rw [Store.prune, Store.get?_retain store fun id => (chainVariables chain).any (·.id = id),
    if_pos (Variable.any_of_mem member)]

theorem Sound.abandon (sound : s.Sound) {nextId : Nat} (le : s.nextId ≤ nextId) :
    (s.abandon nextId).Sound := by
  unfold Session.abandon
  split
  · exact sound
  · exact ⟨sound.ids, fun v member => Nat.lt_of_lt_of_le (sound.below v member) le, sound.known,
      sound.fits⟩

theorem Checked.chainVariables_eq {tree : Syntax.Tree} {body : List Stmt}
    (checked : s.Checked (s.attempt tree) body) :
    chainVariables (s.attempt tree).chain = chainVariables s.chain ++ Bound.leavesOf body := by
  rw [← checked.vars]
  exact chainVariables_cons _ _

/-- The top-level variables have numbers below the counter. -/
theorem Checked.low {tree : Syntax.Tree} {body : List Stmt}
    (checked : s.Checked (s.attempt tree) body) (numbered : s.Numbered) :
    ∀ v ∈ chainVariables (s.attempt tree).chain, v.id < (s.attempt tree).nextId := by
  intro v member
  rw [checked.chainVariables_eq] at member
  rcases List.mem_append.1 member with old | new
  · exact Nat.lt_of_lt_of_le (numbered.below v old) checked.le
  · exact (checked.declared_low ((Bound.leavesOf_sublist body).subset new)).2

/-- A chain that a submission joins has numbers of its own below a later counter. -/
theorem Checked.numbered {tree : Syntax.Tree} {body : List Stmt}
    (checked : s.Checked (s.attempt tree) body) (numbered : s.Numbered) {s' : Session}
    (chain : s'.chain = (s.attempt tree).chain) (le : (s.attempt tree).nextId ≤ s'.nextId) :
    s'.Numbered := by
  have same := checked.chainVariables_eq
  refine ⟨?_, ?_, ?_⟩
  · rw [chain, same]
    exact (((List.Sublist.refl _).append (Bound.leavesOf_sublist body)).map _).nodup
      (numbered.nodup checked.ids)
  · rw [chain]
    exact fun v member => Nat.lt_of_lt_of_le (checked.low numbered v member) le
  · rw [chain, same]
    exact List.forall_mem_append.2 ⟨numbered.known, checked.known⟩

/-- A program that fails leaves the top-level variables before it with values of their types. -/
theorem Checked.after_fault {tree : Syntax.Tree} {body : List Stmt}
    (checked : s.Checked (s.attempt tree) body) (sound : s.Sound) {fuel : Nat} {f : Fault} {w : World}
    (ended : runProgram fuel (s.attempt tree).lowered.program s.world = some (.error f, w)) :
    (s.after (s.attempt tree) w).Sound := by
  refine ⟨sound.ids, sound.below, sound.known, ?_⟩
  intro v member
  obtain ⟨x, stored, ty⟩ := (checked.result sound ended).1 v member
  have later : v ∈ chainVariables (s.attempt tree).chain := by
    rw [checked.chainVariables_eq]
    exact List.mem_append.2 (.inl member)
  exact ⟨x, (get?_prune _ later).trans stored, ty⟩

/-- A program that gives a value joins the chain with values for its variables. -/
theorem Checked.join {tree : Syntax.Tree} {body : List Stmt}
    (checked : s.Checked (s.attempt tree) body) (sound : s.Sound) {fuel : Nat} {x : Value} {w : World}
    (ended : runProgram fuel (s.attempt tree).lowered.program s.world = some (.ok x, w)) :
    ((s.after (s.attempt tree) w).join (s.attempt tree) (s.attempt tree).lowered.nextId).Sound := by
  have numbered : ((s.after (s.attempt tree) w).join (s.attempt tree)
      (s.attempt tree).lowered.nextId).Numbered :=
    checked.numbered sound.numbered rfl checked.lowered_le
  refine ⟨numbered.ids, numbered.below, numbered.known, ?_⟩
  intro v member
  obtain ⟨old, -, new⟩ := checked.result sound ended
  have stored : ∃ y, w.store.get? v.id = some y ∧ y.ty = v.ty := by
    have member : v ∈ chainVariables (s.attempt tree).chain := member
    rw [checked.chainVariables_eq, ← checked.vars] at member
    rcases List.mem_append.1 member with before | joined
    · exact old v before
    · exact new x rfl v joined
  obtain ⟨y, stored, ty⟩ := stored
  exact ⟨y, (get?_prune _ member).trans stored, ty⟩

theorem Sound.start (w : World) : (Session.start w).Sound where
  ids := List.nodup_nil
  below := fun _ member => nomatch member
  known := fun _ member => nomatch member
  fits := fun _ member => nomatch member

/-- The problems of a text, and of its meaning. -/
theorem attempt_clean {s : Session} {text : String}
    (clean : (s.attempt (.ofText text)).diagnostics = []) :
    Syntax.Stmt.WholeAll (Syntax.Tree.ofText text).root.statements ∧
      (s.attempt (.ofText text)).submission.diagnostics = [] := by
  obtain ⟨wholeText, wholeMeaning⟩ := List.append_eq_nil_iff.1 clean
  exact ⟨Syntax.Tree.whole_ofText wholeText, wholeMeaning⟩

theorem Numbered.checked_ofText (numbered : s.Numbered) {text : String}
    (clean : (s.attempt (.ofText text)).diagnostics = []) :
    ∃ body, s.Checked (s.attempt (.ofText text)) body := by
  obtain ⟨whole, meaning⟩ := attempt_clean clean
  exact numbered.checked whole meaning

theorem Sound.checked_ofText (sound : s.Sound) {text : String}
    (clean : (s.attempt (.ofText text)).diagnostics = []) :
    ∃ body, s.Checked (s.attempt (.ofText text)) body :=
  sound.numbered.checked_ofText clean

/-- A submission keeps a session sound. -/
theorem Sound.submit (sound : s.Sound) {s' : Session} {fuel : Nat} {text : String} {reply : Reply}
    (submitted : s.submit fuel (.ofText text) = some (reply, s')) : s'.Sound := by
  obtain ⟨-, -, rfl⟩ | ⟨w, clean, ⟨f, ended, -, rfl⟩ | ⟨x, ended, -, rfl⟩⟩ := submit_cases submitted
  · exact sound.abandon (Bound.bindProgram_le _ _ (Syntax.Tree.ofText text).source _)
  · obtain ⟨body, checked⟩ := sound.checked_ofText clean
    exact (checked.after_fault sound ended).abandon checked.nextId_le
  · obtain ⟨body, checked⟩ := sound.checked_ofText clean
    exact checked.join sound ended

theorem Reachable.sound (reachable : s.Reachable) : s.Sound := by
  induction reachable with
  | start w empty => exact .start w
  | reset h ih => exact .start _
  | streams h w same ih => exact ⟨ih.ids, ih.below, ih.known, same ▸ ih.fits⟩
  | submit h submitted ih => exact ih.submit submitted

/-- No submission of a session goes wrong: every part of an expression that it evaluates gives a
value of the type of the part; it stops with a value, and then all top-level variables have values
of their types, or with a fault that can happen to every program. -/
theorem submit_sound {s : Session} (reachable : s.Reachable) (text : String)
    (clean : (s.attempt (.ofText text)).diagnostics = []) :
    (∀ (k : Nat) (m : Machine) (stmt : Stmt) (e part : Expr) (x : Value),
        (Machine.start s.world).Reaches (.load (s.attempt (.ofText text)).lowered.program) k m →
        (Image.load (s.attempt (.ofText text)).lowered.program).code[m.pc]? = some stmt →
        stmt.subject? = some e → e.Visits m.world part x → x.ty = part.ty) ∧
      ∀ (fuel : Nat) (reply : Reply) (s' : Session),
        s.submit fuel (.ofText text) = some (reply, s') →
        (∃ x, reply = .value x ∧ ∀ v ∈ chainVariables s'.chain,
          ∃ y, s'.world.store.get? v.id = some y ∧ y.ty = v.ty) ∨
        ∃ f, reply = .fault f ∧ f.kind ∈ [.divisionByZero, .conversion, .argument, .stream] := by
  have sound := reachable.sound
  obtain ⟨body, checked⟩ := sound.checked_ofText clean
  constructor
  · intro k m stmt e part x reach code subject visits
    rw [checked.lowered] at reach code
    have well := (checked.typedProgram sound).goesWell (checked.fitsAll sound) reach
    exact well.visits stmt e part x code subject visits
  · intro fuel reply s' submitted
    obtain ⟨dirty, -⟩ | ⟨w, -, ⟨f, ended, rfl, -⟩ | ⟨x, ended, rfl, -⟩⟩ := submit_cases submitted
    · exact absurd clean dirty
    · exact .inr ⟨f, rfl, (checked.result sound ended).2.1 f rfl⟩
    · exact .inl ⟨x, rfl, (sound.submit submitted).fits⟩

/-- A session with a variable that a loop has halved down to one. -/
def sample : Session :=
  ((Session.start (.start [] (.ofSeed 0))).submit 100
    (.ofText "var mut x = 9; while x > 1 \x7b x = x / 2 \x7d")).elim (.start (.start [] (.ofSeed 0))) (·.2)

theorem reachable_sample : sample.Reachable := by
  have first : (Session.start (.start [] (.ofSeed 0))).Reachable := .start _ rfl
  unfold sample
  cases submitted : (Session.start (.start [] (.ofSeed 0))).submit 100
      (.ofText "var mut x = 9; while x > 1 \x7b x = x / 2 \x7d") with
  | none => exact first
  | some answer => exact .submit first submitted

/-- The next submission divides by the variable until it is zero. -/
theorem sample_submit_sound :
    (sample.attempt (.ofText "do \x7b x = x - 1; 8 / x \x7d while true")).diagnostics = [] ∧
      (sample.submit 100 (.ofText "do \x7b x = x - 1; 8 / x \x7d while true")).isSome = true ∧
      ∀ fuel reply s',
        sample.submit fuel (.ofText "do \x7b x = x - 1; 8 / x \x7d while true") = some (reply, s') →
        (∃ x, reply = .value x ∧ ∀ v ∈ chainVariables s'.chain,
          ∃ y, s'.world.store.get? v.id = some y ∧ y.ty = v.ty) ∨
        ∃ f, reply = .fault f ∧ f.kind ∈ [.divisionByZero, .conversion, .argument, .stream] := by
  have clean : (sample.attempt (.ofText "do \x7b x = x - 1; 8 / x \x7d while true")).diagnostics = [] := by
    decide +kernel
  exact ⟨clean, by decide +kernel, (submit_sound reachable_sample _ clean).2⟩

end Session

end ScriptLang
