/-
# ScriptLang.Proofs.Respelling -- binding and running under other names and numbers

A program is respelled by giving its variables other names, where they are
declared and where they are used; what it calls and the types it writes keep
their names.  Binding finds variables by name and hands their numbers through, so
in a scope whose variables are renamed a respelled expression resolves to the
renamed expression (`resolve_mirrors`), and respelled statements bind to the
renamed statements (`bindStmt_mirrors`).

Two uses meet here.  If the names stay and only numbers change, the problems are
the same too, whatever they are.  If names change, the problems quote other
names, and a declaration that is refused may be accepted under another name; so
then only what binds without a problem is followed, as long as different names
stay different and none becomes the name of a function.

What was bound alike runs alike: the machine stops on one program if and only if
it stops on the other, and leaves the same world under other names and numbers
(`Attempt.Program.stops_iff`, `Attempt.Program.runs_seen`).  The hidden variables
of the two programs need not correspond, since the numbers below which the worlds
are compared leave them out.
-/
import ScriptLang.Proofs.Chaining

namespace ScriptLang

set_option autoImplicit false

/-! ## Programs under other names -/

namespace Syntax

/-- A name under another spelling. -/
def Name.respell (r : String → String) (n : Name) : Name := { n with text := r n.text }

/-- The spelling of a name, unless it is missing. -/
def Name.spelling (n : Name) : List String := if n.isMissing then [] else [n.text]

mutual

/-- An expression with its variables under other names. -/
def Expr.respell (r : String → String) : Expr → Expr
  | .literal span value => .literal span value
  | .name n => .name (n.respell r)
  | .unary span op opSpan operand => .unary span op opSpan (operand.respell r)
  | .binary span left op opSpan right => .binary span (left.respell r) op opSpan (right.respell r)
  | .assign span target value => .assign span (target.respell r) (value.respell r)
  | .call span callee args => .call span callee (Expr.respellAll r args)
  | .paren span inner => .paren span (inner.respell r)

def Expr.respellAll (r : String → String) : List Expr → List Expr
  | [] => []
  | e :: es => e.respell r :: Expr.respellAll r es

end

mutual

/-- The names of the variables of an expression. -/
def Expr.names : Expr → List String
  | .literal .. => []
  | .name n => n.spelling
  | .unary _ _ _ operand => operand.names
  | .binary _ left _ _ right => left.names ++ right.names
  | .assign _ target value => target.spelling ++ value.names
  | .call _ _ args => Expr.namesOf args
  | .paren _ inner => inner.names

def Expr.namesOf : List Expr → List String
  | [] => []
  | e :: es => e.names ++ Expr.namesOf es

end

mutual

/-- A statement with its variables under other names. -/
def Stmt.respell (r : String → String) : Stmt → Stmt
  | .block body => .block (body.respell r)
  | .var span name mutable ty init => .var span (name.respell r) mutable ty (init.respell r)
  | .ifThen span test yes => .ifThen span (test.respell r) (yes.respell r)
  | .ifElse span test yes no => .ifElse span (test.respell r) (yes.respell r) (no.respell r)
  | .whileLoop span test body => .whileLoop span (test.map (Expr.respell r)) (body.respell r)
  | .doWhile span body test => .doWhile span (body.respell r) (test.respell r)
  | .forTo span var mutable lower upper body =>
      .forTo span (var.respell r) mutable (lower.respell r) (upper.respell r) (body.respell r)
  | .expr e => .expr (e.respell r)

def Block.respell (r : String → String) : Block → Block
  | .mk span statements => .mk span (Stmt.respellAll r statements)

def Stmt.respellAll (r : String → String) : List Stmt → List Stmt
  | [] => []
  | s :: ss => s.respell r :: Stmt.respellAll r ss

end

mutual

/-- The names of the variables of a statement, those it declares among them. -/
def Stmt.names : Stmt → List String
  | .block body => body.names
  | .var _ name _ _ init => name.spelling ++ init.names
  | .ifThen _ test yes => test.names ++ yes.names
  | .ifElse _ test yes no => test.names ++ yes.names ++ no.names
  | .whileLoop _ none body => body.names
  | .whileLoop _ (some test) body => test.names ++ body.names
  | .doWhile _ body test => body.names ++ test.names
  | .forTo _ var _ lower upper body => var.spelling ++ lower.names ++ upper.names ++ body.names
  | .expr e => e.names

def Block.names : Block → List String
  | .mk _ statements => Stmt.namesOf statements

def Stmt.namesOf : List Stmt → List String
  | [] => []
  | s :: ss => s.names ++ Stmt.namesOf ss

end

section

variable (r : String → String)

@[simp] theorem Name.respell_text (n : Name) : (n.respell r).text = r n.text := rfl
@[simp] theorem Name.respell_isMissing (n : Name) : (n.respell r).isMissing = n.isMissing := rfl

end

theorem Name.mem_spelling {n : Name} (here : n.isMissing = false) : n.text ∈ n.spelling := by
  simp [Name.spelling, here]

theorem Expr.respellAll_eq_map (r : String → String) (args : List Expr) :
    Expr.respellAll r args = args.map (Expr.respell r) := by
  induction args with
  | nil => rfl
  | cons e es ih => rw [Expr.respellAll, ih, List.map_cons]

theorem Stmt.respellAll_eq_map (r : String → String) (body : List Stmt) :
    Stmt.respellAll r body = body.map (Stmt.respell r) := by
  induction body with
  | nil => rfl
  | cons s ss ih => rw [Stmt.respellAll, ih, List.map_cons]

@[simp] theorem Block.statements_respell (r : String → String) (body : Block) :
    (body.respell r).statements = body.statements.map (Stmt.respell r) := by
  cases body
  exact Stmt.respellAll_eq_map r _

theorem Expr.mem_namesOf {n : String} {args : List Expr} :
    n ∈ Expr.namesOf args ↔ ∃ e ∈ args, n ∈ e.names := by
  induction args with
  | nil => simp [Expr.namesOf]
  | cons e es ih => simp [Expr.namesOf, ih]

theorem Stmt.mem_namesOf {n : String} {body : List Stmt} :
    n ∈ Stmt.namesOf body ↔ ∃ s ∈ body, n ∈ s.names := by
  induction body with
  | nil => simp [Stmt.namesOf]
  | cons s ss ih => simp [Stmt.namesOf, ih]

theorem Block.mem_names {n : String} {body : Block} :
    n ∈ body.names ↔ ∃ s ∈ body.statements, n ∈ s.names := by
  cases body
  exact Stmt.mem_namesOf

@[simp] theorem Expr.span_respell (r : String → String) (e : Expr) : (e.respell r).span = e.span := by
  cases e <;> rfl

theorem Expr.respell_id (e : Expr) : e.respell (fun n => n) = e := by
  induction e using Expr.induction with
  | call span callee args ih =>
      have same : args.map (Expr.respell fun n => n) = args :=
        (List.map_congr_left ih).trans (List.map_id args)
      rw [Expr.respell, Expr.respellAll_eq_map, same]
  | _ => simp_all [Expr.respell, Name.respell]

theorem Block.respell_eq_self {r : String → String} {body : Block}
    (each : ∀ s ∈ body.statements, s.respell r = s) : body.respell r = body := by
  obtain ⟨span, statements⟩ := body
  have same : statements.map (Stmt.respell r) = statements :=
    (List.map_congr_left each).trans (List.map_id statements)
  rw [Block.respell, Stmt.respellAll_eq_map, same]

/-- A program under its own names is itself. -/
theorem Stmt.respell_id (s : Stmt) : s.respell (fun n => n) = s := by
  induction s using Stmt.induction with
  | block body ih => rw [Stmt.respell, Block.respell_eq_self ih]
  | var span name mutable ty init => rw [Stmt.respell, Expr.respell_id]; rfl
  | ifThen span test yes ih => rw [Stmt.respell, Expr.respell_id, Block.respell_eq_self ih]
  | ifElse span test yes no ihYes ihNo =>
      rw [Stmt.respell, Expr.respell_id, Block.respell_eq_self ihYes, Block.respell_eq_self ihNo]
  | whileLoop span test body ih =>
      rw [Stmt.respell, Block.respell_eq_self ih]
      cases test with
      | none => rfl
      | some test => rw [Option.map_some, Expr.respell_id]
  | doWhile span body test ih => rw [Stmt.respell, Expr.respell_id, Block.respell_eq_self ih]
  | forTo span var mutable lower upper body ih =>
      rw [Stmt.respell, Expr.respell_id, Expr.respell_id, Block.respell_eq_self ih]
      rfl
  | expr e => rw [Stmt.respell, Expr.respell_id]

end Syntax

/-! ## Scopes under other names and numbers -/

/-- Whether names stay what they are. -/
def Renaming.KeepsNames (ρ : Renaming) : Prop := ∀ name, ρ.name name = name

/-- Whether different names of some kind stay different. -/
def Renaming.Separates (ρ : Renaming) (N : String → Prop) : Prop :=
  ∀ a b, N a → N b → ρ.name a = ρ.name b → a = b

theorem Renaming.KeepsNames.separates {ρ : Renaming} (keeps : ρ.KeepsNames) (N : String → Prop) :
    ρ.Separates N := by
  intro a b _ _ same
  rwa [keeps a, keeps b] at same

/-- A block's declarations under other names and numbers. -/
def Frame.rename (ρ : Renaming) (f : Frame) : Frame := { f with vars := f.vars.map ρ.var }

/-- A scope under other names and numbers. -/
def Scope.rename (ρ : Renaming) (s : Scope) : Scope := ⟨s.inner.rename ρ, s.outer.map (Frame.rename ρ)⟩

variable {ρ : Renaming} {N : String → Prop}

theorem Frame.find?_rename (sep : ρ.Separates N) {f : Frame} (known : ∀ v ∈ f.vars, N v.name)
    {name : String} (here : N name) :
    (f.rename ρ).find? (ρ.name name) = (f.find? name).map ρ.var := by
  unfold Frame.find? Frame.rename
  dsimp only
  generalize f.vars = vs at known
  induction vs with
  | nil => rfl
  | cons v rest ih =>
      rw [List.forall_mem_cons] at known
      have same : decide ((ρ.var v).name = ρ.name name) = decide (v.name = name) :=
        decide_eq_decide.2 ⟨sep v.name name known.1 here, congrArg ρ.name⟩
      rw [List.map_cons, List.find?_cons, List.find?_cons, same]
      cases decide (v.name = name) with
      | true => rfl
      | false => exact ih known.2

namespace Scope

theorem frames_rename (s : Scope) : (s.rename ρ).frames = s.frames.map (Frame.rename ρ) := rfl

theorem push_rename (s : Scope) : (s.rename ρ).push = s.push.rename ρ := rfl

theorem extend_rename (s : Scope) (vs : List Variable) :
    (s.rename ρ).extend (vs.map ρ.var) = (s.extend vs).rename ρ := by
  simp [extend, rename, Frame.rename]

theorem overloads_rename (s : Scope) (name : String) :
    (s.rename ρ).overloads name = s.overloads name := by
  unfold overloads
  rw [frames_rename, List.map_map]
  rfl

theorem function?_rename (s : Scope) (name : String) :
    (s.rename ρ).function? name = s.function? name := by
  rw [function?, overloads_rename, function?]

theorem known_inner {s : Scope} (known : ∀ v ∈ s.vars, N v.name) : ∀ v ∈ s.inner.vars, N v.name :=
  fun v member => known v (List.mem_flatMap.2 ⟨s.inner, List.mem_cons_self, member⟩)

/-- A scope under other names finds under the new name of a variable what it found under the old. -/
theorem find?_rename (sep : ρ.Separates N) {s : Scope} (known : ∀ v ∈ s.vars, N v.name)
    {name : String} (here : N name) :
    (s.rename ρ).find? (ρ.name name) = (s.find? name).map ρ.var := by
  unfold find?
  rw [frames_rename]
  unfold vars at known
  generalize s.frames = frames at known
  induction frames with
  | nil => rfl
  | cons f rest ih =>
      have inFirst : ∀ v ∈ f.vars, N v.name :=
        fun v member => known v (List.mem_flatMap.2 ⟨f, List.mem_cons_self, member⟩)
      have inRest : ∀ v ∈ rest.flatMap Frame.vars, N v.name := by
        intro v member
        rw [List.flatMap_cons] at known
        exact known v (List.mem_append.2 (.inr member))
      rw [List.map_cons, List.findSome?_cons, List.findSome?_cons, Frame.find?_rename sep inFirst here]
      cases f.find? name with
      | some v => rfl
      | none => exact ih inRest

/-- The names that can be suggested are the same if names stay. -/
theorem visible_rename (keeps : ρ.KeepsNames) (s : Scope) : (s.rename ρ).visible = s.visible := by
  have names : ∀ f : Frame, (f.rename ρ).names = f.names := by
    intro f
    have same : (fun v : Variable => v.name) ∘ ρ.var = fun v => v.name := funext fun v => keeps v.name
    rw [Frame.names, Frame.names, Frame.rename, List.map_map, same]
  unfold visible
  rw [frames_rename]
  induction s.frames with
  | nil => rfl
  | cons f rest ih => rw [List.map_cons, visibleIn, visibleIn, names, ih]

end Scope

namespace Bound

/-! ## Checks -/

/-- Whether one check mirrors another: it gives the image of what the first gives, has no problem if
the first has none, and the same problems if names stay. -/
structure Checked.Mirrors {α β : Type} (ρ : Renaming) (f : α → β) (c : Checked α) (c' : Checked β) :
    Prop where
  value : c'.value = f c.value
  clean : c.problems = [] → c'.problems = []
  same : ρ.KeepsNames → c'.problems = c.problems

namespace Checked.Mirrors

variable {α β γ δ : Type} {f : α → β} {g : γ → δ}

theorem pure (a : α) : Mirrors ρ f (Pure.pure a) (Pure.pure (f a)) := ⟨rfl, fun _ => rfl, fun _ => rfl⟩

theorem refl (c : Checked Unit) : Mirrors ρ (fun u => u) c c := ⟨rfl, fun clean => clean, fun _ => rfl⟩

/-- Reports may differ in the names that they quote. -/
theorem reported {c c' : Checked Unit} (dirty : c.problems ≠ [])
    (same : ρ.KeepsNames → c'.problems = c.problems) : Mirrors ρ (fun u => u) c c' :=
  ⟨rfl, fun clean => absurd clean dirty, same⟩

theorem bind {c : Checked α} {c' : Checked β} {k : α → Checked γ} {k' : β → Checked δ}
    (first : Mirrors ρ f c c') (next : ∀ a, Mirrors ρ g (k a) (k' (f a))) :
    Mirrors ρ g (c >>= k) (c' >>= k') := by
  have rest := next c.value
  rw [← first.value] at rest
  refine ⟨rest.value, ?_, ?_⟩
  · intro clean
    rw [Checked.problems_bind, List.append_eq_nil_iff] at clean ⊢
    exact ⟨first.clean clean.1, rest.clean clean.2⟩
  · intro keeps
    rw [Checked.problems_bind, Checked.problems_bind, first.same keeps, rest.same keeps]

end Checked.Mirrors

/-- Whether a check gives the renamed expression. -/
abbrev Checked.Renames (ρ : Renaming) (c c' : Checked Expr) : Prop :=
  Checked.Mirrors ρ (Expr.rename ρ) c c'

/-! ## Expressions -/

theorem requireValue_mirrors (span : Span) (e : Expr) :
    Checked.Renames ρ (requireValue span e) (requireValue span (e.rename ρ)) := by
  unfold requireValue
  rw [Expr.ty_rename]
  split
  · exact (Checked.Mirrors.refl _).bind fun _ => .pure Expr.error
  · exact .pure e

theorem convertTo_mirrors (e : Expr) (span : Span) (ty : Ty) (cast : Bool) :
    Checked.Renames ρ (convertTo e span ty cast) (convertTo (e.rename ρ) span ty cast) := by
  unfold convertTo
  rw [Expr.ty_rename]
  dsimp only
  split
  · split
    · exact (Checked.Mirrors.refl _).bind fun _ => .pure Expr.error
    · exact .pure Expr.error
  · have converted : Checked.Renames ρ
        (pure (if Conversion.between e.ty ty = .identity then e else .convert ty e))
        (pure (if Conversion.between e.ty ty = .identity then e.rename ρ
          else .convert ty (e.rename ρ))) := by
      split
      · exact .pure e
      · exact .pure (Expr.convert ty e)
    split
    · exact (Checked.Mirrors.refl _).bind fun _ => converted
    · exact converted

theorem reportUnknown_mirrors (scope : Scope) {name name' : Syntax.Name} {cause cause' : Cause}
    (same : ρ.KeepsNames → name' = name ∧ cause' = cause) :
    Checked.Mirrors ρ (fun u => u) (reportUnknown scope name cause)
      (reportUnknown (scope.rename ρ) name' cause') := by
  refine .reported (List.cons_ne_nil _ _) ?_
  intro keeps
  obtain ⟨rfl, rfl⟩ := same keeps
  rw [reportUnknown, Scope.visible_rename keeps, reportUnknown]

theorem respell_of_keepsNames (keeps : ρ.KeepsNames) (name : Syntax.Name) :
    name.respell ρ.name = name := by
  rw [Syntax.Name.respell, keeps]

theorem unknownVariable_mirrors (scope : Scope) (name : Syntax.Name) :
    Checked.Mirrors ρ (fun u => u) (reportUnknown scope name (.unknownVariable name.text))
      (reportUnknown (scope.rename ρ) (name.respell ρ.name)
        (.unknownVariable (name.respell ρ.name).text)) := by
  refine reportUnknown_mirrors scope ?_
  intro keeps
  rw [respell_of_keepsNames keeps]
  exact ⟨rfl, rfl⟩

theorem readOnly_mirrors (span : Span) (name : String) :
    Checked.Mirrors ρ (fun u => u) (Checked.report span (.readOnly name))
      (Checked.report span (.readOnly (ρ.name name))) := by
  refine .reported (Checked.report_ne_nil _ _) ?_
  intro keeps
  rw [keeps]

theorem stepVariable_mirrors (op : BinaryOp) (operand : Expr) (span : Span) :
    Checked.Renames ρ (stepVariable op operand span) (stepVariable op (operand.rename ρ) span) := by
  cases operand with
  | var v =>
      have stepped : Checked.Renames ρ
          (pure (.assign v (.binary (.var v) ⟨op, .int, .int, .int⟩ (.literal (.int 1)))))
          (pure (.assign (ρ.var v)
            (.binary (.var (ρ.var v)) ⟨op, .int, .int, .int⟩ (.literal (.int 1))))) :=
        .pure (Expr.assign v _)
      rw [Expr.rename]
      unfold stepVariable
      dsimp only
      rw [Renaming.var_mutable]
      split
      · exact (readOnly_mirrors span v.name).bind fun _ => stepped
      · exact stepped
  | _ => exact (Checked.Mirrors.refl _).bind fun _ => .pure Expr.error

theorem applyUnary_mirrors (op : UnaryOp) (opSpan : Span) (operand : Expr) (span : Span) :
    Checked.Renames ρ (applyUnary op opSpan operand span)
      (applyUnary op opSpan (operand.rename ρ) span) := by
  unfold applyUnary Expr.isUnknown
  rw [Expr.ty_rename]
  split
  · exact .pure Expr.error
  · cases UnaryRule.find? op operand.ty with
    | none => exact (Checked.Mirrors.refl _).bind fun _ => .pure Expr.error
    | some rule =>
        cases op with
        | increment => exact stepVariable_mirrors .add operand span
        | decrement => exact stepVariable_mirrors .sub operand span
        | _ => exact .pure (Expr.unary rule operand)

theorem applyBinary_mirrors (left : Expr) (op : BinaryOp) (opSpan : Span) (right : Expr) :
    Checked.Renames ρ (applyBinary left op opSpan right)
      (applyBinary (left.rename ρ) op opSpan (right.rename ρ)) := by
  unfold applyBinary Expr.isUnknown
  rw [Expr.ty_rename, Expr.ty_rename]
  split
  · exact .pure Expr.error
  · cases BinaryRule.find? op left.ty right.ty with
    | none => exact (Checked.Mirrors.refl _).bind fun _ => .pure Expr.error
    | some rule => exact .pure (Expr.binary left rule right)

theorem convertArg_mirrors (span : Span) (e : Expr) (p : Parameter) :
    Checked.Renames ρ (convertArg span e p) (convertArg span (e.rename ρ) p) := by
  unfold convertArg
  split
  · exact .pure e
  · exact convertTo_mirrors e span p.ty false

theorem convertArgs_mirrors (spans : List Span) (args : List Expr) (ps : List Parameter) :
    Checked.Mirrors ρ (List.map (Expr.rename ρ)) (convertArgs spans args ps)
      (convertArgs spans (args.map (Expr.rename ρ)) ps) := by
  induction spans, args, ps using convertArgs_induction with
  | ended spans args ps ended =>
      rw [convertArgs_ended ended, convertArgs_ended (by simpa using ended)]
      exact .pure []
  | more span spans e es p ps ih =>
      rw [List.map_cons, convertArgs_bind, convertArgs_bind]
      apply (convertArg_mirrors span e p).bind
      intro first
      exact ih.bind fun rest => .pure (first :: rest)

theorem applyOverloads_mirrors (overloads : List Function) (callee : Syntax.Name) (spans : List Span)
    (args : List Expr) (span : Span) :
    Checked.Renames ρ (applyOverloads overloads callee spans args span)
      (applyOverloads overloads callee spans (args.map (Expr.rename ρ)) span) := by
  have types : (args.map (Expr.rename ρ)).map Expr.ty = args.map Expr.ty := by
    rw [List.map_map]
    exact List.map_congr_left fun e _ => Expr.ty_rename ρ e
  have unknown : (args.map (Expr.rename ρ)).any Expr.isUnknown = args.any Expr.isUnknown := by
    rw [List.any_map]
    congr 1
    funext e
    rw [Function.comp_apply, Expr.isUnknown, Expr.ty_rename, Expr.isUnknown]
  unfold applyOverloads
  rw [unknown, List.length_map]
  split
  · exact .pure Expr.error
  · cases overloads.filter fun f => f.parameters.length = args.length with
    | nil =>
        cases overloads with
        | nil => exact .pure Expr.error
        | cons f rest => exact (Checked.Mirrors.refl _).bind fun _ => .pure Expr.error
    | cons f rest =>
        dsimp only
        rw [bestOverload?_rename]
        cases bestOverload? (f :: rest) args with
        | some g =>
            apply (convertArgs_mirrors spans args g.parameters).bind
            intro converted
            have called : Checked.Renames ρ (pure (.call g converted))
                (pure (.call g (Expr.renameAll ρ converted))) := .pure (Expr.call g converted)
            rwa [Expr.renameAll_eq_map] at called
        | none =>
            cases rest with
            | nil => exact (convertArgs_mirrors spans args f.parameters).bind fun _ => .pure Expr.error
            | cons g rest =>
                dsimp only
                rw [types]
                exact (Checked.Mirrors.refl _).bind fun _ => .pure Expr.error

/-! ## Names -/

section

variable (sep : ρ.Separates N) {scope : Scope} (known : ∀ v ∈ scope.vars, N v.name)

include sep known

theorem resolveName_mirrors {name : Syntax.Name} (here : ∀ n ∈ name.spelling, N n) :
    Checked.Renames ρ (resolveName scope name)
      (resolveName (scope.rename ρ) (name.respell ρ.name)) := by
  unfold resolveName
  rw [Syntax.Name.respell_isMissing]
  cases missing : name.isMissing with
  | true => exact .pure Expr.error
  | false =>
      have found := Scope.find?_rename sep known (here _ (Syntax.Name.mem_spelling missing))
      simp only [Bool.false_eq_true, if_false]
      rw [Syntax.Name.respell_text, found]
      cases scope.find? name.text with
      | none => exact (unknownVariable_mirrors scope name).bind fun _ => .pure Expr.error
      | some v => exact .pure (Expr.var v)

theorem assignTo_mirrors {target : Syntax.Name} (here : ∀ n ∈ target.spelling, N n) (value : Expr)
    (span : Span) :
    Checked.Renames ρ (assignTo scope target value span)
      (assignTo (scope.rename ρ) (target.respell ρ.name) (value.rename ρ) span) := by
  unfold assignTo
  rw [Syntax.Name.respell_isMissing]
  cases missing : target.isMissing with
  | true => exact .pure Expr.error
  | false =>
      have found := Scope.find?_rename sep known (here _ (Syntax.Name.mem_spelling missing))
      simp only [Bool.false_eq_true, if_false]
      rw [Syntax.Name.respell_text, found]
      cases scope.find? target.text with
      | none => exact (unknownVariable_mirrors scope target).bind fun _ => .pure value
      | some v =>
          have assigned : Checked.Renames ρ
              (convertTo value span v.ty false >>= fun e => pure (.assign v e))
              (convertTo (value.rename ρ) span v.ty false >>= fun e => pure (.assign (ρ.var v) e)) :=
            (convertTo_mirrors value span v.ty false).bind fun e => .pure (Expr.assign v e)
          dsimp only [Option.map]
          rw [Renaming.var_mutable, Renaming.var_ty]
          split
          · exact (readOnly_mirrors target.span target.text).bind fun _ => assigned
          · exact assigned

omit sep known in
theorem Checked.Renames.value_of {e : Syntax.Expr}
    (mirrors : Checked.Renames ρ (resolve scope e) (resolve (scope.rename ρ) (e.respell ρ.name))) :
    Checked.Renames ρ (resolveValue scope e) (resolveValue (scope.rename ρ) (e.respell ρ.name)) := by
  unfold resolveValue
  rw [Syntax.Expr.span_respell]
  exact mirrors.bind fun bound => requireValue_mirrors e.span bound

omit sep known in
theorem resolveArgs_mirrors {args : List Syntax.Expr}
    (each : ∀ e ∈ args, Checked.Renames ρ (resolve scope e)
      (resolve (scope.rename ρ) (e.respell ρ.name))) :
    Checked.Mirrors ρ (List.map (Expr.rename ρ)) (resolveArgs scope args)
      (resolveArgs (scope.rename ρ) (args.map (Syntax.Expr.respell ρ.name))) := by
  induction args with
  | nil =>
      rw [List.map_nil, resolveArgs, resolveArgs]
      exact .pure []
  | cons e es ih =>
      rw [List.forall_mem_cons] at each
      rw [List.map_cons, resolveArgs_cons, resolveArgs_cons]
      apply (Checked.Renames.value_of each.1).bind
      intro first
      exact (ih each.2).bind fun rest => .pure (first :: rest)

/-- A respelled expression resolves in the renamed scope to the renamed expression. -/
theorem resolve_mirrors (e : Syntax.Expr) (here : ∀ n ∈ e.names, N n) :
    Checked.Renames ρ (resolve scope e) (resolve (scope.rename ρ) (e.respell ρ.name)) := by
  induction e using Syntax.Expr.induction with
  | literal span value =>
      rw [Syntax.Expr.respell, resolve, resolve]
      exact .pure (Expr.literal _)
  | name name =>
      rw [Syntax.Expr.respell, resolve, resolve]
      exact resolveName_mirrors sep known here
  | unary span op opSpan operand ih =>
      rw [Syntax.Expr.respell, resolve_unary, resolve_unary, Syntax.Expr.span_respell]
      apply (Checked.Renames.value_of (ih here)).bind
      intro bound
      exact applyUnary_mirrors op opSpan bound operand.span
  | binary span left op opSpan right ihLeft ihRight =>
      obtain ⟨inLeft, inRight⟩ := List.forall_mem_append.1 here
      rw [Syntax.Expr.respell, resolve_binary, resolve_binary]
      apply (Checked.Renames.value_of (ihLeft inLeft)).bind
      intro boundLeft
      apply (Checked.Renames.value_of (ihRight inRight)).bind
      intro boundRight
      exact applyBinary_mirrors boundLeft op opSpan boundRight
  | assign span target value ih =>
      obtain ⟨inTarget, inValue⟩ := List.forall_mem_append.1 here
      rw [Syntax.Expr.respell, resolve_assign, resolve_assign, Syntax.Expr.span_respell]
      apply (Checked.Renames.value_of (ih inValue)).bind
      intro bound
      exact assignTo_mirrors sep known inTarget bound value.span
  | call span callee args ih =>
      have each : ∀ e ∈ args, Checked.Renames ρ (resolve scope e)
          (resolve (scope.rename ρ) (e.respell ρ.name)) := fun e member =>
        ih e member fun n inside => here n (Syntax.Expr.mem_namesOf.2 ⟨e, member, inside⟩)
      rw [Syntax.Expr.respell, Syntax.Expr.respellAll_eq_map]
      rcases call_cases callee args with ⟨ty, arg, named, rfl⟩ | plain
      · rw [List.map_cons, List.map_nil, resolve_cast named, resolve_cast named,
          Syntax.Expr.span_respell]
        apply (Checked.Renames.value_of (each arg List.mem_cons_self)).bind
        intro bound
        exact convertTo_mirrors bound arg.span ty true
      · have plain' : ∀ t, Ty.ofName? callee.text = some t →
            (args.map (Syntax.Expr.respell ρ.name)).length ≠ 1 := by
          rw [List.length_map]
          exact plain
        have spans : (args.map (Syntax.Expr.respell ρ.name)).map Syntax.Expr.span =
            args.map Syntax.Expr.span := by
          rw [List.map_map]
          exact List.map_congr_left fun e _ => Syntax.Expr.span_respell ρ.name e
        rw [resolve_plain plain, resolve_plain plain', Scope.overloads_rename, spans]
        split
        · refine (reportUnknown_mirrors scope ?_).bind fun _ => .pure Expr.error
          exact fun _ => ⟨rfl, rfl⟩
        · apply (resolveArgs_mirrors each).bind
          intro bound
          exact applyOverloads_mirrors _ callee _ bound span
  | paren span inner ih =>
      rw [Syntax.Expr.respell, resolve, resolve]
      exact ih here

theorem resolveValue_mirrors (e : Syntax.Expr) (here : ∀ n ∈ e.names, N n) :
    Checked.Renames ρ (resolveValue scope e)
      (resolveValue (scope.rename ρ) (e.respell ρ.name)) :=
  Checked.Renames.value_of (resolve_mirrors sep known e here)

theorem resolveTo_mirrors (e : Syntax.Expr) (here : ∀ n ∈ e.names, N n) (ty : Ty) :
    Checked.Renames ρ (resolveTo scope e ty)
      (resolveTo (scope.rename ρ) (e.respell ρ.name) ty) := by
  unfold resolveTo
  rw [Syntax.Expr.span_respell]
  apply (resolveValue_mirrors sep known e here).bind
  exact fun bound => convertTo_mirrors bound e.span ty false

end

/-! ## Binders -/

/-- Whether a binder mirrors another: its scope is the other's under other names and numbers, and its
counter the image of the other's.  From `first` on numbers keep following each other, and names
that are no functions do not become any. -/
structure Binder.Mirrors (ρ : Renaming) (N : String → Prop) (first : Nat) (b b' : Binder) : Prop where
  scope : b'.scope = b.scope.rename ρ
  known : ∀ v ∈ b.scope.vars, N v.name
  free : ∀ name, N name → b.scope.function? name = none → b.scope.function? (ρ.name name) = none
  nextId : b'.nextId = ρ.id b.nextId
  above : first ≤ b.nextId
  clean : b.problems = [] → b'.problems = []
  same : ρ.KeepsNames → b'.problems = b.problems

namespace Binder.Mirrors

variable {first : Nat} {b b' : Binder}

theorem check (mirrors : Binder.Mirrors ρ N first b b') {α β : Type} {g : α → β}
    (f : Scope → Checked α) (f' : Scope → Checked β)
    (checks : Checked.Mirrors ρ g (f b.scope) (f' (b.scope.rename ρ))) :
    (b'.check f').1 = g (b.check f).1 ∧
      Binder.Mirrors ρ N first (b.check f).2 (b'.check f').2 := by
  have found : (b'.check f').2.problems = b'.problems ++ (f' (b.scope.rename ρ)).problems := by
    rw [← mirrors.scope]
    rfl
  refine ⟨?_, mirrors.scope, mirrors.known, mirrors.free, mirrors.nextId, mirrors.above, ?_, ?_⟩
  · rw [Binder.check_value, mirrors.scope, checks.value, Binder.check_value]
  · intro clean
    obtain ⟨before, here⟩ := Binder.check_clean clean
    rw [found, mirrors.clean before, checks.clean here]
    rfl
  · intro keeps
    rw [found, mirrors.same keeps, checks.same keeps]
    rfl

/-- A condition or a bound. -/
theorem checkTo (mirrors : Binder.Mirrors ρ N first b b') (sep : ρ.Separates N) {e : Syntax.Expr}
    (here : ∀ n ∈ e.names, N n) (ty : Ty) :
    (b'.check (resolveTo · (e.respell ρ.name) ty)).1 = (b.check (resolveTo · e ty)).1.rename ρ ∧
      Binder.Mirrors ρ N first (b.check (resolveTo · e ty)).2
        (b'.check (resolveTo · (e.respell ρ.name) ty)).2 :=
  mirrors.check (resolveTo · e ty) (resolveTo · (e.respell ρ.name) ty)
    (resolveTo_mirrors sep mirrors.known e here ty)

theorem enter (mirrors : Binder.Mirrors ρ N first b b') :
    Binder.Mirrors ρ N first b.enter b'.enter where
  scope := (congrArg Scope.push mirrors.scope).trans b.scope.push_rename
  known := by
    show ∀ v ∈ b.scope.push.vars, N v.name
    rw [Scope.vars_push]
    exact mirrors.known
  free := mirrors.free
  nextId := mirrors.nextId
  above := mirrors.above
  clean := mirrors.clean
  same := mirrors.same

/-- After a block the scope is the one before it. -/
theorem leave (mirrors : Binder.Mirrors ρ N first b b') {c c' : Binder}
    (after : Binder.Mirrors ρ N first c c') (grown : Scope.Extends b.scope.push c.scope)
    (grown' : Scope.Extends b'.scope.push c'.scope) : Binder.Mirrors ρ N first c.leave c'.leave := by
  have back : c.leave.scope = b.scope := grown.pop
  have back' : c'.leave.scope = b'.scope := grown'.pop
  refine ⟨?_, ?_, ?_, after.nextId, after.above, after.clean, after.same⟩
  · rw [back, back']
    exact mirrors.scope
  · rw [back]
    exact mirrors.known
  · rw [back]
    exact mirrors.free

theorem report (mirrors : Binder.Mirrors ρ N first b b') (span : Span) {cause cause' : Cause}
    (same : ρ.KeepsNames → cause' = cause) :
    Binder.Mirrors ρ N first (b.report span cause) (b'.report span cause') := by
  refine ⟨mirrors.scope, mirrors.known, mirrors.free, mirrors.nextId, mirrors.above, ?_, ?_⟩
  · intro clean
    exact absurd clean (List.append_ne_nil_of_right_ne_nil _ (List.cons_ne_nil _ _))
  · intro keeps
    rw [Binder.report, mirrors.same keeps, same keeps]
    rfl

theorem declaredType (mirrors : Binder.Mirrors ρ N first b b') (ty : Option Syntax.Name) (init : Expr) :
    (Bound.declaredType b' ty (init.rename ρ)).1 = (Bound.declaredType b ty init).1 ∧
      Binder.Mirrors ρ N first (Bound.declaredType b ty init).2
        (Bound.declaredType b' ty (init.rename ρ)).2 := by
  unfold Bound.declaredType Binder.resolveType
  cases ty with
  | none => exact ⟨Expr.ty_rename ρ init, mirrors⟩
  | some written =>
      dsimp only
      cases Ty.ofName? written.text with
      | some ty => exact ⟨rfl, mirrors⟩
      | none => exact ⟨rfl, mirrors.report _ fun _ => rfl⟩

theorem firstValue (mirrors : Binder.Mirrors ρ N first b b') (sep : ρ.Separates N)
    {init : Syntax.Expr} (here : ∀ n ∈ init.names, N n) (ty : Option Syntax.Name) :
    (Bound.firstValue ty (init.respell ρ.name) b').1.1 = (Bound.firstValue ty init b).1.1 ∧
      (Bound.firstValue ty (init.respell ρ.name) b').1.2 =
        (Bound.firstValue ty init b).1.2.rename ρ ∧
      Binder.Mirrors ρ N first (Bound.firstValue ty init b).2
        (Bound.firstValue ty (init.respell ρ.name) b').2 := by
  unfold Bound.firstValue
  dsimp only
  obtain ⟨value, resolved⟩ := mirrors.check (resolveValue · init)
    (resolveValue · (init.respell ρ.name)) (resolveValue_mirrors sep mirrors.known init here)
  rw [value, Syntax.Expr.span_respell]
  obtain ⟨varTy, typed⟩ := resolved.declaredType ty (b.check (resolveValue · init)).1
  rw [varTy]
  exact ⟨rfl, typed.check (fun _ => _) (fun _ => _)
    (convertTo_mirrors (b.check (resolveValue · init)).1 init.span
      (Bound.declaredType (b.check (resolveValue · init)).2 ty
        (b.check (resolveValue · init)).1).1 false)⟩

/-- A counter that goes on by one goes on by one in the mirror. -/
theorem count (mirrors : Binder.Mirrors ρ N first b b')
    (counts : ∀ i, first ≤ i → ρ.id (i + 1) = ρ.id i + 1) :
    Binder.Mirrors ρ N first { b with nextId := b.nextId + 1 } { b' with nextId := b'.nextId + 1 } where
  scope := mirrors.scope
  known := mirrors.known
  free := mirrors.free
  nextId := by
    show b'.nextId + 1 = ρ.id (b.nextId + 1)
    rw [counts _ mirrors.above, mirrors.nextId]
  above := Nat.le_succ_of_le mirrors.above
  clean := mirrors.clean
  same := mirrors.same

/-- A variable whose name is among the names that are told apart. -/
theorem extend (mirrors : Binder.Mirrors ρ N first b b') {v : Variable} (named : N v.name) :
    Binder.Mirrors ρ N first { b with scope := b.scope.extend [v] }
      { b' with scope := b'.scope.extend [ρ.var v] } where
  scope := by
    show b'.scope.extend [ρ.var v] = (b.scope.extend [v]).rename ρ
    rw [mirrors.scope, ← Scope.extend_rename]
    rfl
  known := by
    intro u member
    rcases Scope.mem_vars_extend.1 member with old | new
    · exact mirrors.known u old
    · rw [List.mem_singleton.1 new]
      exact named
  free := mirrors.free
  nextId := mirrors.nextId
  above := mirrors.above
  clean := mirrors.clean
  same := mirrors.same

theorem declare (mirrors : Binder.Mirrors ρ N first b b') (sep : ρ.Separates N)
    (counts : ∀ i, first ≤ i → ρ.id (i + 1) = ρ.id i + 1) {name : Syntax.Name}
    (here : ∀ n ∈ name.spelling, N n) {mutable : Bool} {ty : Ty}
    (ok : ρ.KeepsNames ∨ (b.declare name mutable ty).2.problems = []) :
    (b'.declare (name.respell ρ.name) mutable ty).1 = ρ.var (b.declare name mutable ty).1 ∧
      Binder.Mirrors ρ N first (b.declare name mutable ty).2
        (b'.declare (name.respell ρ.name) mutable ty).2 := by
  have counted := mirrors.count counts
  refine ⟨?_, ?_⟩
  · rw [Binder.declare_variable, Binder.declare_variable, mirrors.nextId]
    rfl
  cases missing : name.isMissing with
  | true =>
      have missing' : (name.respell ρ.name).isMissing = true := missing
      rw [Binder.declare_missing missing, Binder.declare_missing missing']
      exact counted
  | false =>
  have named : N name.text := here _ (Syntax.Name.mem_spelling missing)
  have quoted : ρ.KeepsNames → Cause.alreadyDeclared (ρ.name name.text) = .alreadyDeclared name.text :=
    fun keeps => by rw [keeps]
  have function : b'.scope.function? (ρ.name name.text) = b.scope.function? (ρ.name name.text) := by
    rw [mirrors.scope, Scope.function?_rename]
  have inner : b'.scope.inner.find? (ρ.name name.text) =
      (b.scope.inner.find? name.text).map ρ.var := by
    rw [mirrors.scope]
    exact Frame.find?_rename sep (Scope.known_inner mirrors.known) named
  have missing' : (name.respell ρ.name).isMissing = false := missing
  cases taken : b.scope.function? name.text with
  | some f =>
      rcases ok with keeps | clean
      · rw [Binder.declare_taken missing (.inl (by rw [taken]; rfl)), Binder.declare_taken missing'
          (.inl (by rw [Syntax.Name.respell_text, function, keeps, taken]; rfl))]
        exact counted.report name.span quoted
      · rw [Binder.declare_taken missing (.inl (by rw [taken]; rfl))] at clean
        exact absurd clean (List.append_ne_nil_of_right_ne_nil _ (List.cons_ne_nil _ _))
  | none =>
  cases stored : b.scope.inner.find? name.text with
  | some v =>
      rw [Binder.declare_taken missing (.inr (by rw [stored]; rfl)), Binder.declare_taken missing'
        (.inr (by rw [Syntax.Name.respell_text, inner, stored]; rfl))]
      exact counted.report name.span quoted
  | none =>
      have free' : b'.scope.function? (name.respell ρ.name).text = none := by
        rw [Syntax.Name.respell_text, function]
        exact mirrors.free name.text named taken
      have new' : b'.scope.inner.find? (name.respell ρ.name).text = none := by
        rw [Syntax.Name.respell_text, inner, stored]
        rfl
      rw [Binder.declare_free missing taken stored,
        Binder.declare_free missing' free' new']
      have same : (⟨b'.nextId, (name.respell ρ.name).text, ty, mutable, some name.span⟩ : Variable) =
          ρ.var ⟨b.nextId, name.text, ty, mutable, some name.span⟩ := by
        rw [mirrors.nextId]
        rfl
      have grown := mirrors.extend (v := ⟨b.nextId, name.text, ty, mutable, some name.span⟩) named
      rw [← same] at grown
      exact grown.count counts

end Binder.Mirrors

/-! ## Statements -/

section

variable (sep : ρ.Separates N) {first : Nat} (counts : ∀ i, first ≤ i → ρ.id (i + 1) = ρ.id i + 1)

/-- Whether a respelled statement binds to the renamed statement. -/
structure MirrorsAt (ρ : Renaming) (N : String → Prop) (first : Nat) (o o' : Stmt × Binder) : Prop where
  stmt : o'.1 = o.1.rename ρ
  after : Binder.Mirrors ρ N first o.2 o'.2

/-- Whether respelled statements bind to the renamed statements. -/
structure MirrorsAll (ρ : Renaming) (N : String → Prop) (first : Nat)
    (o o' : List Stmt × Binder) : Prop where
  body : o'.1 = o.1.map (Stmt.rename ρ)
  after : Binder.Mirrors ρ N first o.2 o'.2

theorem bindStmts_mirrors {body : List Syntax.Stmt} {b b' : Binder}
    (each : ∀ s ∈ body, ∀ b b', Binder.Mirrors ρ N first b b' →
      (ρ.KeepsNames ∨ (bindStmt s b).2.problems = []) →
      MirrorsAt ρ N first (bindStmt s b) (bindStmt (s.respell ρ.name) b'))
    (mirrors : Binder.Mirrors ρ N first b b')
    (ok : ρ.KeepsNames ∨ (bindStmts body b).2.problems = []) :
    MirrorsAll ρ N first (bindStmts body b) (bindStmts (body.map (Syntax.Stmt.respell ρ.name)) b') := by
  induction body generalizing b b' with
  | nil =>
      rw [List.map_nil, bindStmts_nil, bindStmts_nil]
      exact ⟨rfl, mirrors⟩
  | cons s ss ih =>
      rw [List.forall_mem_cons] at each
      rw [bindStmts_cons] at ok
      rw [List.map_cons, bindStmts_cons, bindStmts_cons]
      have here := each.1 b b' mirrors (ok.imp_right (grows_all ss (bindStmt s b).2).clean)
      have rest := ih each.2 here.after ok
      refine ⟨?_, rest.after⟩
      rw [here.stmt, rest.body]
      rfl

theorem bindBlock_mirrors {body : Syntax.Block} {b b' : Binder}
    (each : ∀ s ∈ body.statements, (∀ n ∈ s.names, N n) → ∀ b b', Binder.Mirrors ρ N first b b' →
      (ρ.KeepsNames ∨ (bindStmt s b).2.problems = []) →
      MirrorsAt ρ N first (bindStmt s b) (bindStmt (s.respell ρ.name) b'))
    (here : ∀ n ∈ body.names, N n) (mirrors : Binder.Mirrors ρ N first b b')
    (ok : ρ.KeepsNames ∨ (bindBlock body b).2.problems = []) :
    MirrorsAt ρ N first (bindBlock body b) (bindBlock (body.respell ρ.name) b') := by
  rw [bindBlock_eq] at ok
  rw [bindBlock_eq, bindBlock_eq, Syntax.Block.statements_respell]
  have inside := fun s member => each s member fun n inside =>
    here n (Syntax.Block.mem_names.2 ⟨s, member, inside⟩)
  have inner := bindStmts_mirrors inside mirrors.enter ok
  refine ⟨?_, mirrors.leave inner.after (extends_all _ b.enter) (extends_all _ b'.enter)⟩
  rw [inner.body, Stmt.rename, Stmt.renameAll_eq_map]

include sep counts

/-- A respelled statement binds to the renamed statement, if names stay or the statement has no
problem. -/
theorem bindStmt_mirrors (s : Syntax.Stmt) (here : ∀ n ∈ s.names, N n) (b b' : Binder)
    (mirrors : Binder.Mirrors ρ N first b b')
    (ok : ρ.KeepsNames ∨ (bindStmt s b).2.problems = []) :
    MirrorsAt ρ N first (bindStmt s b) (bindStmt (s.respell ρ.name) b') := by
  induction s using Syntax.Stmt.induction generalizing b b' with
  | block body ih =>
      rw [bindStmt] at ok
      rw [Syntax.Stmt.respell, bindStmt, bindStmt]
      exact bindBlock_mirrors ih here mirrors ok
  | var span name mutable ty init =>
      obtain ⟨inName, inInit⟩ := List.forall_mem_append.1 here
      rw [bindStmt_var] at ok
      rw [Syntax.Stmt.respell, bindStmt_var, bindStmt_var]
      dsimp only at ok ⊢
      obtain ⟨varTy, value, valued⟩ := mirrors.firstValue sep inInit ty
      rw [varTy]
      obtain ⟨declared, after⟩ := valued.declare sep counts inName ok
      refine ⟨?_, after⟩
      rw [value, declared, Stmt.rename]
  | ifThen span test yes ih =>
      obtain ⟨inTest, inYes⟩ := List.forall_mem_append.1 here
      rw [bindStmt_ifThen] at ok
      rw [Syntax.Stmt.respell, bindStmt_ifThen, bindStmt_ifThen]
      dsimp only at ok ⊢
      obtain ⟨tested, checked⟩ := mirrors.checkTo sep inTest .bool
      have inner := bindBlock_mirrors ih inYes checked ok
      refine ⟨?_, inner.after⟩
      rw [tested, inner.stmt, Stmt.rename]
  | ifElse span test yes no ihYes ihNo =>
      obtain ⟨inFirst, inNo⟩ := List.forall_mem_append.1 here
      obtain ⟨inTest, inYes⟩ := List.forall_mem_append.1 inFirst
      rw [bindStmt_ifElse] at ok
      rw [Syntax.Stmt.respell, bindStmt_ifElse, bindStmt_ifElse]
      dsimp only at ok ⊢
      obtain ⟨tested, checked⟩ := mirrors.checkTo sep inTest .bool
      have yes := bindBlock_mirrors ihYes inYes checked (ok.imp_right (grows_block no _).clean)
      have no := bindBlock_mirrors ihNo inNo yes.after ok
      refine ⟨?_, no.after⟩
      rw [tested, yes.stmt, no.stmt, Stmt.rename]
  | whileLoop span test body ih =>
      cases test with
      | none =>
          rw [bindStmt_whileLoop_none] at ok
          rw [Syntax.Stmt.respell, Option.map_none, bindStmt_whileLoop_none, bindStmt_whileLoop_none]
          have inner := bindBlock_mirrors ih here mirrors ok
          refine ⟨?_, inner.after⟩
          rw [inner.stmt, Stmt.rename, Expr.rename]
      | some test =>
          obtain ⟨inTest, inBody⟩ := List.forall_mem_append.1 here
          rw [bindStmt_whileLoop_some] at ok
          rw [Syntax.Stmt.respell, Option.map_some, bindStmt_whileLoop_some, bindStmt_whileLoop_some]
          dsimp only at ok ⊢
          obtain ⟨tested, checked⟩ := mirrors.checkTo sep inTest .bool
          have inner := bindBlock_mirrors ih inBody checked ok
          refine ⟨?_, inner.after⟩
          rw [tested, inner.stmt, Stmt.rename]
  | doWhile span body test ih =>
      obtain ⟨inBody, inTest⟩ := List.forall_mem_append.1 here
      rw [bindStmt_doWhile] at ok
      rw [Syntax.Stmt.respell, bindStmt_doWhile, bindStmt_doWhile]
      dsimp only at ok ⊢
      have inner := bindBlock_mirrors ih inBody mirrors
        (ok.imp_right fun clean => (Binder.check_clean clean).1)
      obtain ⟨tested, after⟩ := inner.after.checkTo sep inTest .bool
      refine ⟨?_, after⟩
      rw [tested, inner.stmt, Stmt.rename]
  | forTo span var mutable lower upper body ih =>
      obtain ⟨inBounds, inBody⟩ := List.forall_mem_append.1 here
      obtain ⟨inFirst, inUpper⟩ := List.forall_mem_append.1 inBounds
      obtain ⟨inVar, inLower⟩ := List.forall_mem_append.1 inFirst
      rw [bindStmt_forTo] at ok
      rw [Syntax.Stmt.respell, bindStmt_forTo, bindStmt_forTo]
      dsimp only at ok ⊢
      obtain ⟨low, checked⟩ := mirrors.checkTo sep inLower .int
      obtain ⟨high, second⟩ := checked.checkTo sep inUpper .int
      obtain ⟨declared, third⟩ :=
        second.enter.declare sep counts inVar (ok.imp_right (grows_block body _).clean)
      have inner := bindBlock_mirrors ih inBody third ok
      refine ⟨?_, second.leave inner.after ?_ ?_⟩
      · rw [low, high, declared, inner.stmt, Stmt.rename]
      · exact declare_bindBlock_extends _ _ _ _ _
      · exact declare_bindBlock_extends _ _ _ _ _
  | expr e =>
      rw [Syntax.Stmt.respell, bindStmt_expr, bindStmt_expr]
      obtain ⟨value, after⟩ := mirrors.check (resolve · e)
        (resolve · (e.respell ρ.name)) (resolve_mirrors sep mirrors.known e here)
      refine ⟨?_, after⟩
      rw [value, Stmt.rename]

/-- Respelled statements bind to the renamed statements, if names stay or there is no problem. -/
theorem mirrors_all {body : List Syntax.Stmt} (here : ∀ n ∈ Syntax.Stmt.namesOf body, N n)
    {b b' : Binder} (mirrors : Binder.Mirrors ρ N first b b')
    (ok : ρ.KeepsNames ∨ (bindStmts body b).2.problems = []) :
    MirrorsAll ρ N first (bindStmts body b) (bindStmts (body.map (Syntax.Stmt.respell ρ.name)) b') := by
  refine bindStmts_mirrors ?_ mirrors ok
  intro s member
  exact bindStmt_mirrors sep counts s fun n inside =>
    here n (Syntax.Stmt.mem_namesOf.2 ⟨s, member, inside⟩)

end

end Bound

/-! ## Runs -/

open ScriptLang.Bound (Stmt Submission)

theorem RunSeen.some_iff {keep : Nat → Bool} {before : String} {run run' : Option (Outcome Value)}
    (seen : RunSeen ρ keep before run run') : (∃ o, run = some o) ↔ ∃ o, run' = some o := by
  match run, run' with
  | some o, some o' => exact ⟨fun _ => ⟨o', rfl⟩, fun _ => ⟨o, rfl⟩⟩
  | none, none => exact Iff.rfl
  | some _, none => exact seen.elim
  | none, some _ => exact seen.elim

namespace Attempt

/-- What a submission has to run: statements without jumps, with variables below its counter. -/
structure Program (a : Attempt) (body : List Stmt) : Prop where
  statement : a.submission.statement = .block body
  structured : Stmt.areStructured body = true
  ids : ∀ v ∈ Stmt.varsOf body, v.id < a.nextId

/-- The statements of a tree, bound after a chain. -/
abbrev boundBody (chain : List Submission) (nextId : Nat) (tree : Syntax.Tree) : List Stmt :=
  (Bound.bindStmts tree.root.statements (.atStart chain nextId)).1

section

variable {chain : List Submission} {nextId : Nat} {tree : Syntax.Tree}

theorem problems_of_clean (clean : (Attempt.bind chain nextId tree).diagnostics = []) :
    (Bound.bindStmts tree.root.statements (.atStart chain nextId)).2.problems = [] := by
  have meaning := (List.append_eq_nil_iff.1 clean).2
  exact List.map_eq_nil_iff.1 (List.append_eq_nil_iff.1 meaning).1

theorem low_scope (low : ∀ v ∈ chainVariables chain, v.id < nextId) :
    ∀ v ∈ (Bound.Binder.atStart chain nextId).scope.vars, v.id < nextId := by
  intro v member
  have listed : v ∈ (Bound.scopeAfter chain).vars := by
    rw [← Scope.vars_push]
    exact member
  exact low v (mem_vars_scopeAfter.1 listed)

theorem program_bind (clean : (Attempt.bind chain nextId tree).diagnostics = [])
    (low : ∀ v ∈ chainVariables chain, v.id < nextId) :
    (Attempt.bind chain nextId tree).Program (boundBody chain nextId tree) where
  statement := rfl
  structured := Cut.structured _ _
  ids := (Bound.bindStmts_low (problems_of_clean clean) (low_scope low)).1

/-- The top-level variables have numbers below the counter. -/
theorem low_bind (clean : (Attempt.bind chain nextId tree).diagnostics = [])
    (low : ∀ v ∈ chainVariables chain, v.id < nextId) :
    ∀ v ∈ chainVariables (Attempt.bind chain nextId tree).chain,
      v.id < (Attempt.bind chain nextId tree).nextId := by
  intro v member
  rw [Attempt.chain, chainVariables_cons] at member
  rcases List.mem_append.1 member with old | new
  · exact Nat.lt_of_lt_of_le (low v old) (Bound.bindProgram_le _ _ tree.source _)
  · refine (Bound.bindStmts_low (problems_of_clean clean) (low_scope low)).2 v ?_
    exact List.mem_flatMap.2 ⟨_, List.mem_cons_self, new⟩

end

namespace Program

variable {a a' : Attempt} {body : List Stmt} {w w' : World}

theorem ends_iff (program : a.Program body) {o : Outcome Value} :
    (∃ rounds, Stmt.interpretAll rounds body .void (w.below a.nextId) = some o) ↔
      ∃ fuel p, runProgram fuel a.lowered.program w = some p ∧ p.below a.nextId = o := by
  have agree : (∃ rounds, (Stmt.block body).interpret rounds .void (w.below a.nextId) = some o) ↔ _ :=
    Bound.Stmt.interpret_iff_run (s := .block body) program.structured program.ids
  rw [Attempt.lowered, program.statement]
  exact agree

theorem stops_iff_ends (program : a.Program body) :
    (∃ fuel p, runProgram fuel a.lowered.program w = some p) ↔
      ∃ rounds o, Stmt.interpretAll rounds body .void (w.below a.nextId) = some o := by
  constructor
  · rintro ⟨fuel, p, ended⟩
    obtain ⟨rounds, ran⟩ := program.ends_iff.2 ⟨fuel, p, ended, rfl⟩
    exact ⟨rounds, _, ran⟩
  · rintro ⟨rounds, o, ran⟩
    obtain ⟨fuel, p, ended, -⟩ := program.ends_iff.1 ⟨rounds, ran⟩
    exact ⟨fuel, p, ended⟩

variable (program : a.Program body) (program' : a'.Program (body.map (Stmt.rename ρ)))
  (inj : ρ.Injects fun _ => true)
  (seen : World.Seen ρ (fun _ => true) "" (w.below a.nextId) (w'.below a'.nextId))

include program program' inj seen

omit program program' in
theorem interpretAll_seen (body : List Stmt) (rounds : Nat) :
    RunSeen ρ (fun _ => true) "" (Stmt.interpretAll rounds body .void (w.below a.nextId))
      (Stmt.interpretAll rounds (body.map (Stmt.rename ρ)) .void (w'.below a'.nextId)) := by
  refine Stmt.interpretAll_seen ?_ .void seen
  intro s _ last w w' seen
  exact s.interpret_seen inj rounds (fun _ _ => rfl) last seen

/-- A renamed program stops if and only if the program does. -/
theorem stops_iff :
    (∃ fuel p, runProgram fuel a.lowered.program w = some p) ↔
      ∃ fuel p, runProgram fuel a'.lowered.program w' = some p := by
  rw [program.stops_iff_ends, program'.stops_iff_ends]
  exact exists_congr fun rounds => (interpretAll_seen inj seen body rounds).some_iff

/-- A renamed program gives what the program gives, and leaves the same world under other names and
numbers. -/
theorem runs_seen {fuel fuel' : Nat} {p p' : Outcome Value}
    (ended : runProgram fuel a.lowered.program w = some p)
    (ended' : runProgram fuel' a'.lowered.program w' = some p') :
    (p.below a.nextId).Seen ρ (fun _ => true) "" (p'.below a'.nextId) := by
  obtain ⟨rounds, ran⟩ := program.ends_iff.2 ⟨fuel, p, ended, rfl⟩
  obtain ⟨rounds', ran'⟩ := program'.ends_iff.2 ⟨fuel', p', ended', rfl⟩
  have both := interpretAll_seen inj seen body (max rounds rounds')
  rw [Stmt.interpretAll_more (Nat.le_max_left _ _) ran,
    Stmt.interpretAll_more (Nat.le_max_right _ _) ran'] at both
  exact both

end Program

end Attempt

/-- A submission without diagnostics is answered if and only if its program stops. -/
theorem Session.answered_iff_stops {s : Session} {tree : Syntax.Tree}
    (clean : (s.attempt tree).diagnostics = []) :
    (∃ fuel answer, s.submit fuel tree = some answer) ↔
      ∃ fuel o, runProgram fuel (s.attempt tree).lowered.program s.world = some o := by
  constructor
  · rintro ⟨fuel, answer, submitted⟩
    obtain ⟨o, ended, -⟩ := run_of_submit clean submitted
    exact ⟨fuel, o, ended⟩
  · rintro ⟨fuel, o, ended⟩
    exact ⟨fuel, _, submit_of_run clean ended⟩

end ScriptLang
