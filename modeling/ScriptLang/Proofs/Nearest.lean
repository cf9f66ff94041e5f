/-
# ScriptLang.Proofs.Nearest -- names mean the nearest declaration

The binder keeps a stack of frames, entering and leaving them as it goes through
a program; a history keeps the text alone.  The two agree at every place
(`Tracks`): the variable that the scope finds is the one made for the nearest
declaration, and the innermost frame has the accepted declarations of the block.

So what comes out of binding can be told from the text.  A place gives each name
the variable of its nearest declaration, a program is read with these
(`Resolves`), and there is one such reading (`ResolvesAll.unique`).  The unknown
variables that are reported are the names without a declaration, and the
variables that a submission offers to later ones are its accepted declarations
outside of all blocks (`bindProgram_lexical`).  None of this needs a program
without problems.
-/
import ScriptLang.Proofs.History
import ScriptLang.Proofs.Rebinding
import ScriptLang.Proofs.References

namespace ScriptLang

set_option autoImplicit false

open Syntax (Event History)
open Syntax.History

/-- Whether a name is there but no variable has it. -/
def Scope.lacks (scope : Scope) (name : Syntax.Name) : Bool :=
  !name.isMissing && (scope.find? name.text).isNone

namespace Bound

/-! ## Reports of unknown variables -/

/-- The place and the name, if a problem is that a variable is unknown. -/
def Problem.unknown? (p : Problem) : Option (Span × String) :=
  match p.cause with
  | .unknownVariable name => some (p.span, name)
  | _ => none

/-- The unknown variables among problems, in order. -/
def unknowns (problems : List Problem) : List (Span × String) := problems.filterMap Problem.unknown?

/-- A name as it is reported. -/
def mention (name : Syntax.Name) : Span × String := (name.span, name.text)

@[simp] theorem unknowns_nil : unknowns [] = [] := rfl

@[simp] theorem unknowns_append (ps qs : List Problem) :
    unknowns (ps ++ qs) = unknowns ps ++ unknowns qs := List.filterMap_append

theorem reported_of_unknown {problems : List Problem} {span : Span} {name : String}
    (member : (span, name) ∈ unknowns problems) :
    Reported problems span (.unknownVariable name) := by
  obtain ⟨⟨place, cause, help⟩, listed, same⟩ := List.mem_filterMap.1 member
  cases cause with
  | unknownVariable _ =>
      cases same
      exact ⟨help, listed⟩
  | _ => cases same

@[simp] theorem unknowns_requireValue (span : Span) (e : Expr) :
    unknowns (requireValue span e).problems = [] := by
  unfold requireValue
  split <;> rfl

@[simp] theorem unknowns_convertTo (e : Expr) (span : Span) (ty : Ty) (cast : Bool) :
    unknowns (convertTo e span ty cast).problems = [] := by
  unfold convertTo
  dsimp only
  split
  · split <;> rfl
  · split <;> split <;> rfl

theorem unknowns_stepVariable (op : BinaryOp) (operand : Expr) (span : Span) :
    unknowns (stepVariable op operand span).problems = [] := by
  unfold stepVariable
  split
  · dsimp only
    split <;> rfl
  · rfl

theorem unknowns_applyUnary (op : UnaryOp) (opSpan : Span) (operand : Expr) (span : Span) :
    unknowns (applyUnary op opSpan operand span).problems = [] := by
  unfold applyUnary
  split
  · rfl
  · split
    · rfl
    · split
      · exact unknowns_stepVariable _ _ _
      · exact unknowns_stepVariable _ _ _
      · rfl

theorem unknowns_applyBinary (left : Expr) (op : BinaryOp) (opSpan : Span) (right : Expr) :
    unknowns (applyBinary left op opSpan right).problems = [] := by
  unfold applyBinary
  split
  · rfl
  · split <;> rfl

theorem unknowns_convertArg (span : Span) (e : Expr) (p : Parameter) :
    unknowns (convertArg span e p).problems = [] := by
  unfold convertArg
  split
  · rfl
  · exact unknowns_convertTo e span p.ty false

theorem unknowns_convertArgs (spans : List Span) (args : List Expr) (ps : List Parameter) :
    unknowns (convertArgs spans args ps).problems = [] := by
  induction spans, args, ps using convertArgs_induction with
  | ended spans args ps ended => rw [convertArgs_ended ended, Checked.problems_pure, unknowns_nil]
  | more span spans e es p ps ih =>
      rw [convertArgs_cons, unknowns_append, unknowns_convertArg, ih, List.append_nil]

theorem unknowns_reportArity (f : Function) (spans : List Span) (span : Span) :
    unknowns (reportArity f spans span).problems = [] := by
  unfold reportArity
  dsimp only
  split
  · rw [unknowns, List.filterMap_map]
    exact List.filterMap_eq_nil_iff.2 fun _ _ => rfl
  · split <;> rfl

theorem unknowns_applyOverloads (overloads : List Function) (callee : Syntax.Name)
    (spans : List Span) (args : List Expr) (span : Span) :
    unknowns (applyOverloads overloads callee spans args span).problems = [] := by
  unfold applyOverloads
  split
  · rfl
  · split
    · split
      · rfl
      · simp [unknowns_reportArity]
    · split
      · simp [unknowns_convertArgs]
      · split
        · simp [unknowns_convertArgs]
        · rfl

theorem unknowns_assignTo (scope : Scope) (target : Syntax.Name) (value : Expr) (span : Span) :
    unknowns (assignTo scope target value span).problems =
      ([target].filter scope.lacks).map mention := by
  unfold assignTo
  cases missing : target.isMissing with
  | true => simp [Scope.lacks, missing]
  | false =>
      cases found : scope.find? target.text with
      | none =>
          simp [Scope.lacks, missing, found, reportUnknown, Checked.reportWith]
          rfl
      | some v =>
          have readOnly : unknowns (Checked.report target.span (.readOnly target.text)).problems = [] :=
            rfl
          cases mutable : v.mutable <;> simp [Scope.lacks, missing, found, mutable, readOnly]

theorem unknowns_resolveArgs {scope : Scope} {args : List Syntax.Expr}
    (each : ∀ e ∈ args, unknowns (resolve scope e).problems =
      (e.uses.filter scope.lacks).map mention) :
    unknowns (resolveArgs scope args).problems =
      ((Syntax.Expr.usesIn args).filter scope.lacks).map mention := by
  induction args with
  | nil =>
      rw [resolveArgs]
      rfl
  | cons e es ih =>
      rw [List.forall_mem_cons] at each
      rw [resolveArgs]
      simp [Syntax.Expr.usesIn, each.1, ih each.2]

/-- The unknown variables that resolving reports are the names that are looked up and not found. -/
theorem unknowns_resolve {scope : Scope}
    (functions : ∀ name, scope.overloads name = functionsOf name) (e : Syntax.Expr) :
    unknowns (resolve scope e).problems =
      (e.uses.filter scope.lacks).map mention := by
  induction e using Syntax.Expr.induction with
  | literal span value =>
      rw [resolve]
      rfl
  | name n =>
      rw [resolve, Syntax.Expr.uses]
      unfold resolveName
      cases missing : n.isMissing with
      | true => simp [Scope.lacks, missing]
      | false =>
          cases found : scope.find? n.text with
          | some v => simp [Scope.lacks, missing, found]
          | none =>
              simp [Scope.lacks, missing, found, reportUnknown, Checked.reportWith]
              rfl
  | unary span op opSpan operand ih =>
      rw [resolve]
      simp [Syntax.Expr.uses, unknowns_applyUnary, ih]
  | binary span left op opSpan right ihLeft ihRight =>
      rw [resolve]
      simp [Syntax.Expr.uses, unknowns_applyBinary, ihLeft, ihRight]
  | assign span target value ih =>
      rw [resolve]
      simp only [Checked.problems_bind, unknowns_append, unknowns_requireValue, List.nil_append, ih,
        Syntax.Expr.uses, List.filter_append, List.map_append]
      rw [unknowns_assignTo]
  | call span callee args ih =>
      have inside := unknowns_resolveArgs ih
      rw [Syntax.Expr.uses]
      rcases call_cases callee args with ⟨t, arg, named, rfl⟩ | other
      · rw [List.length_singleton, isCallable_cast named, if_pos rfl, ← inside, resolve_cast named,
          resolveArgs_eq]
        simp
      · by_cases any : functionsOf callee.text = []
        · have uncallable : ¬ callee.isCallable args.length = true := by
            rw [isCallable_plain other]
            exact fun some => some any
          rw [if_neg uncallable, resolve_uncallable functions other any]
          rfl
        · rw [if_pos ((isCallable_plain other).2 any), ← inside, resolve_call functions other any]
          simp [unknowns_applyOverloads]
  | paren span inner ih =>
      rw [resolve]
      exact ih

theorem unknowns_resolveValue {scope : Scope}
    (functions : ∀ name, scope.overloads name = functionsOf name) (e : Syntax.Expr) :
    unknowns (resolveValue scope e).problems =
      (e.uses.filter scope.lacks).map mention := by
  simp [resolveValue, unknowns_resolve functions]

theorem unknowns_resolveTo {scope : Scope}
    (functions : ∀ name, scope.overloads name = functionsOf name) (e : Syntax.Expr) (ty : Ty) :
    unknowns (resolveTo scope e ty).problems =
      (e.uses.filter scope.lacks).map mention := by
  simp [resolveTo, unknowns_resolveValue functions]

/-! ## Statements -/

section

variable (all : List Variable) (problems : List Problem)

/-- The variable that a name means at a place, where `all` are those of all declarations. -/
def meaning (h : History) (text : String) : Option Variable :=
  (nearest? text 0 h).bind fun k => all[k]?

/-- Whether a variable is the one of a declaration at a place. -/
structure Declares (h : History) (name : Syntax.Name) (mutable : Bool) (v : Variable) : Prop where
  symbol : all[count h]? = some v
  named : v.name = name.text
  mutable : v.mutable = mutable
  span : v.span = some name.span

mutual

/-- Whether a bound statement is what a statement is read as, each name in it as what it means at
its place. -/
inductive Resolves : History → Syntax.Stmt → Stmt → Prop
  | block {h : History} {body : Syntax.Block} {y : Stmt} :
      ResolvesBlock h body y → Resolves h (.block body) y
  | var {h : History} {span : Span} {name : Syntax.Name} {mutable : Bool} {ty : Option Syntax.Name}
      {init : Syntax.Expr} {v : Variable} {x : Expr} :
      ReadsTo (meaning all h) problems v.ty init x → Declares all h name mutable v →
        Resolves h (.var span name mutable ty init) (.declare v x)
  | ifThen {h : History} {span : Span} {test : Syntax.Expr} {yes : Syntax.Block} {x : Expr}
      {y : Stmt} :
      ReadsTo (meaning all h) problems .bool test x → ResolvesBlock h yes y →
        Resolves h (.ifThen span test yes) (.ifThen x y)
  | ifElse {h : History} {span : Span} {test : Syntax.Expr} {yes no : Syntax.Block} {x : Expr}
      {y z : Stmt} :
      ReadsTo (meaning all h) problems .bool test x → ResolvesBlock h yes y →
        ResolvesBlock (yes.past h) no z → Resolves h (.ifElse span test yes no) (.ifElse x y z)
  | forever {h : History} {span : Span} {body : Syntax.Block} {y : Stmt} :
      ResolvesBlock h body y →
        Resolves h (.whileLoop span none body) (.whileLoop (.literal (.bool true)) y)
  | whileLoop {h : History} {span : Span} {test : Syntax.Expr} {body : Syntax.Block} {x : Expr}
      {y : Stmt} :
      ReadsTo (meaning all h) problems .bool test x → ResolvesBlock h body y →
        Resolves h (.whileLoop span (some test) body) (.whileLoop x y)
  | doWhile {h : History} {span : Span} {body : Syntax.Block} {test : Syntax.Expr} {x : Expr}
      {y : Stmt} :
      ResolvesBlock h body y → ReadsTo (meaning all (body.past h)) problems .bool test x →
        Resolves h (.doWhile span body test) (.doWhile y x)
  | forTo {h : History} {span : Span} {var : Syntax.Name} {mutable : Bool}
      {lower upper : Syntax.Expr} {body : Syntax.Block} {v : Variable} {l u : Expr} {y : Stmt} :
      ReadsTo (meaning all h) problems .int lower l →
        ReadsTo (meaning all h) problems .int upper u → Declares all (.enter :: h) var mutable v →
        ResolvesBlock (.declare var :: .enter :: h) body y →
        Resolves h (.forTo span var mutable lower upper body) (.forTo v l u y)
  | expr {h : History} {e : Syntax.Expr} {x : Expr} :
      Reads (meaning all h) problems e x → Resolves h (.expr e) (.expr x)

inductive ResolvesBlock : History → Syntax.Block → Stmt → Prop
  | mk {h : History} {body : Syntax.Block} {ys : List Stmt} :
      ResolvesAll (.enter :: h) body.statements ys → ResolvesBlock h body (.block ys)

inductive ResolvesAll : History → List Syntax.Stmt → List Stmt → Prop
  | nil {h : History} : ResolvesAll h [] []
  | cons {h : History} {s : Syntax.Stmt} {ss : List Syntax.Stmt} {y : Stmt} {ys : List Stmt} :
      Resolves h s y → ResolvesAll (s.past h) ss ys → ResolvesAll h (s :: ss) (y :: ys)

end

/-- Whether variables are those of accepted declarations, one for one and in order. -/
def Accepted (block : List (Nat × Syntax.Name)) (vars : List Variable) : Prop :=
  List.Forall₂ (fun d v => all[d.1]? = some v ∧ v.name = d.2.text) block vars

/-- What a scope has to do with the history of a place. -/
structure Tracks (h : History) (scope : Scope) : Prop where
  /-- A name is found exactly if it means something, and then what it means. -/
  found : ∀ text, scope.find? text = meaning all h text
  accepted : Accepted all (block 0 h) scope.inner.vars
  functions : ∀ name, scope.overloads name = functionsOf name
  /-- All declarations so far have their variables. -/
  enough : count h ≤ all.length

end

/-! ### One reading -/

section

variable {all : List Variable} {problems : List Problem}

theorem Declares.unique {h : History} {name : Syntax.Name} {mutable : Bool} {v u : Variable}
    (first : Declares all h name mutable v) (second : Declares all h name mutable u) : v = u :=
  Option.some.inj (first.symbol.symm.trans second.symbol)

theorem ResolvesAll.unique_of {body : List Syntax.Stmt}
    (each : ∀ s ∈ body, ∀ {h y z},
      Resolves all problems h s y → Resolves all problems h s z → y = z)
    {h : History} {ys zs : List Stmt} (first : ResolvesAll all problems h body ys)
    (second : ResolvesAll all problems h body zs) : ys = zs := by
  induction body generalizing h ys zs with
  | nil =>
      cases first
      cases second
      rfl
  | cons s ss ih =>
      rw [List.forall_mem_cons] at each
      cases first with
      | cons head rest =>
      cases second with
      | cons head' rest' => rw [each.1 head head', ih each.2 rest rest']

theorem ResolvesBlock.unique_of {body : Syntax.Block}
    (each : ∀ s ∈ body.statements, ∀ {h y z},
      Resolves all problems h s y → Resolves all problems h s z → y = z)
    {h : History} {y z : Stmt} (first : ResolvesBlock all problems h body y)
    (second : ResolvesBlock all problems h body z) : y = z := by
  cases first with
  | mk inside =>
  cases second with
  | mk inside' => rw [ResolvesAll.unique_of each inside inside']

theorem Resolves.unique {s : Syntax.Stmt} {h : History} {y z : Stmt}
    (first : Resolves all problems h s y) (second : Resolves all problems h s z) : y = z := by
  induction s using Syntax.Stmt.induction generalizing h y z with
  | block body ih =>
      cases first with
      | block inside =>
      cases second with
      | block inside' => exact inside.unique_of ih inside'
  | var span name mutable ty init =>
      cases first with
      | var reads declares =>
      cases second with
      | var reads' declares' =>
          cases declares.unique declares'
          rw [reads.unique reads']
  | ifThen span test yes ih =>
      cases first with
      | ifThen reads inside =>
      cases second with
      | ifThen reads' inside' => rw [reads.unique reads', inside.unique_of ih inside']
  | ifElse span test yes no ihYes ihNo =>
      cases first with
      | ifElse reads yes no =>
      cases second with
      | ifElse reads' yes' no' =>
          rw [reads.unique reads', yes.unique_of ihYes yes', no.unique_of ihNo no']
  | whileLoop span test body ih =>
      cases first with
      | forever inside =>
          cases second with
          | forever inside' => rw [inside.unique_of ih inside']
      | whileLoop reads inside =>
          cases second with
          | whileLoop reads' inside' => rw [reads.unique reads', inside.unique_of ih inside']
  | doWhile span body test ih =>
      cases first with
      | doWhile inside reads =>
      cases second with
      | doWhile inside' reads' => rw [inside.unique_of ih inside', reads.unique reads']
  | forTo span var mutable lower upper body ih =>
      cases first with
      | forTo readsLower readsUpper declares inside =>
      cases second with
      | forTo readsLower' readsUpper' declares' inside' =>
          rw [readsLower.unique readsLower', readsUpper.unique readsUpper',
            declares.unique declares', inside.unique_of ih inside']
  | expr e =>
      cases first with
      | expr reads =>
      cases second with
      | expr reads' => rw [reads.unique reads']

/-- Statements are read in one way: what names mean leaves no choice. -/
theorem ResolvesAll.unique {body : List Syntax.Stmt} {h : History} {ys zs : List Stmt}
    (first : ResolvesAll all problems h body ys) (second : ResolvesAll all problems h body zs) :
    ys = zs := first.unique_of (fun _ _ => Resolves.unique) second

end

theorem Accepted.names {all : List Variable} {block : List (Nat × Syntax.Name)}
    {vars : List Variable} (accepted : Accepted all block vars) :
    vars.map (·.name) = block.map (·.2.text) := by
  induction accepted with
  | nil => rfl
  | cons first rest ih => rw [List.map_cons, List.map_cons, first.2, ih]

/-- The accepted declaration of a name is that of the variable of that name. -/
theorem Accepted.find? {all : List Variable} {block : List (Nat × Syntax.Name)}
    {vars : List Variable} (accepted : Accepted all block vars) (text : String) :
    Option.Rel (fun d v => all[d.1]? = some v) (block.find? (·.2.text = text))
      (vars.find? (·.name = text)) := by
  induction accepted with
  | nil => exact .none
  | cons first rest ih =>
      rw [List.find?_cons, List.find?_cons, first.2]
      split
      · exact .some first.1
      · exact ih

/-- After the statements of a block a name means the variable that the block has of that name, and
otherwise what it meant in front of the block. -/
theorem Accepted.meaning_past {all vars : List Variable} {body : List Syntax.Stmt} {h : History}
    (accepted : Accepted all (block 0 (Syntax.Stmt.pastAll body (.enter :: h))) vars)
    (text : String) :
    meaning all (Syntax.Stmt.pastAll body (.enter :: h)) text =
      (vars.find? (·.name = text)).or (meaning all h text) := by
  have around : outside 0 (Syntax.Stmt.pastAll body (.enter :: h)) = h :=
    Syntax.outside_pastAll body (.enter :: h)
  rw [meaning, nearest?_eq, around]
  have same := accepted.find? text
  revert same
  generalize (block 0 _).find? _ = d, vars.find? _ = v
  rintro (symbol | _)
  · simpa using symbol
  · rfl

namespace Tracks

variable {all : List Variable} {problems : List Problem} {h : History} {scope : Scope}

theorem reads (tracks : Tracks all h scope) {e : Syntax.Expr}
    (kept : (resolve scope e).problems ⊆ problems) :
    Reads (meaning all h) problems e (resolve scope e).value := by
  rw [← funext tracks.found]
  exact resolve_reads tracks.functions e kept

/-- A name has no meaning exactly if there is no declaration. -/
theorem isNone_iff (tracks : Tracks all h scope) (text : String) :
    (scope.find? text).isNone = (nearest? text 0 h).isNone := by
  rw [tracks.found, meaning]
  cases found : nearest? text 0 h with
  | none => rfl
  | some k =>
      have := nearest?_lt found
      have := tracks.enough
      simp
      omega

theorem unseen (tracks : Tracks all h scope) (e : Syntax.Expr) :
    e.uses.filter scope.lacks = e.unseen h := by
  refine List.filter_congr fun n _ => ?_
  rw [Scope.lacks, tracks.isNone_iff]

theorem enter (tracks : Tracks all h scope) : Tracks all (.enter :: h) scope.push where
  found text := by
    rw [← show meaning all h text = meaning all (.enter :: h) text from rfl, ← tracks.found]
    rfl
  accepted := .nil
  functions name := (Scope.overloads_push scope name).trans (tracks.functions name)
  enough := tracks.enough

/-- What is closed leaves the scope as it is. -/
theorem close (tracks : Tracks all h scope) {h' : History} (closed : Closed 0 h h')
    (enough : count h' ≤ all.length) : Tracks all h' scope where
  found text := by rw [tracks.found, meaning, meaning, closed.nearest]
  accepted := by
    rw [closed.block]
    exact tracks.accepted
  functions := tracks.functions
  enough := enough

/-- A declaration is accepted exactly if the scope takes it. -/
theorem admits_iff (tracks : Tracks all h scope) (name : Syntax.Name) :
    admits (block 0 h) name = true ↔
      name.isMissing = false ∧ scope.function? name.text = none ∧
        scope.inner.find? name.text = none := by
  have function : scope.function? name.text = none ↔ ¬ Builtin.all.any (·.name = name.text) = true := by
    rw [Scope.function?, tracks.functions, List.head?_eq_none_iff, ← functionsOf_ne_nil_iff,
      not_not]
  have frame : scope.inner.find? name.text = none ↔
      ∀ d ∈ block 0 h, d.2.text ≠ name.text := by
    have same := tracks.accepted.names
    have mem : name.text ∉ scope.inner.vars.map (·.name) ↔
        name.text ∉ (block 0 h).map (·.2.text) := by rw [same]
    simpa [Frame.find?] using mem
  simp only [admits, Bool.and_eq_true, Bool.not_eq_true', List.all_eq_true, decide_eq_true_eq,
    function, frame, Bool.not_eq_true, and_assoc]

end Tracks

/-- A declaration that is refused leaves the scope as it is. -/
theorem Binder.declare_refused {b : Binder} {name : Syntax.Name}
    (refused : ¬ (name.isMissing = false ∧ b.scope.function? name.text = none ∧
      b.scope.inner.find? name.text = none)) (mutable : Bool) (ty : Ty) :
    (b.declare name mutable ty).2.scope = b.scope := by
  rcases b.declare_cases name mutable ty with ⟨-, eq⟩ | ⟨-, eq⟩ | ⟨free, -⟩
  · rw [eq]
  · rw [eq]
    rfl
  · exact absurd free refused

theorem Tracks.declare {all : List Variable} {h : History} {b : Binder}
    (tracks : Tracks all h b.scope) {name : Syntax.Name} {mutable : Bool} {ty : Ty}
    (symbol : all[count h]? = some (b.declare name mutable ty).1) :
    Tracks all (.declare name :: h) (b.declare name mutable ty).2.scope := by
  have enough : count (.declare name :: h) ≤ all.length :=
    (List.getElem?_eq_some_iff.1 symbol).1
  by_cases accepted : admits (block 0 h) name = true
  · obtain ⟨here, free, new⟩ := (tracks.admits_iff name).1 accepted
    rw [Binder.declare_variable] at symbol
    rw [Binder.declare_free here free new]
    refine ⟨fun text => ?_, ?_, tracks.functions, enough⟩
    · rw [Scope.find?_extend new, meaning, nearest?, accepted, Bool.and_true]
      by_cases same : name.text = text
      · simp [same, symbol]
      · simp only [same, decide_false, Bool.false_eq_true, if_false]
        exact tracks.found text
    · rw [History.block, if_pos accepted]
      exact List.rel_append tracks.accepted (.cons ⟨symbol, rfl⟩ .nil)
  · rw [Binder.declare_refused (mt (tracks.admits_iff name).2 accepted)]
    refine ⟨fun text => ?_, ?_, tracks.functions, enough⟩
    · rw [meaning, nearest?, Bool.eq_false_iff.2 accepted, Bool.and_false]
      exact tracks.found text
    · rw [History.block, if_neg accepted]
      exact tracks.accepted

/-! ### Numbers -/

/-- Whether the variables of the declarations between two places have the numbers in between. -/
structure Numbers (b : Binder) (h : History) (vars : List Variable) (b' : Binder) (h' : History) :
    Prop where
  ids : vars.map (·.id) = interval b.nextId b'.nextId
  le : b.nextId ≤ b'.nextId
  count : count h' = count h + vars.length

namespace Numbers

variable {b b' b'' : Binder} {h h' h'' : History} {vs us : List Variable}

theorem same (nextId : b'.nextId = b.nextId) (h : History) : Numbers b h [] b' h where
  ids := by rw [nextId, interval_self]; rfl
  le := Nat.le_of_eq nextId.symm
  count := rfl

theorem append (first : Numbers b h vs b' h') (second : Numbers b' h' us b'' h'') :
    Numbers b h (vs ++ us) b'' h'' where
  ids := by rw [List.map_append, first.ids, second.ids, interval_append first.le second.le]
  le := Nat.le_trans first.le second.le
  count := by rw [second.count, first.count, List.length_append, Nat.add_assoc]

theorem check {α : Type} (b : Binder) (f : Scope → Checked α) (h : History) :
    Numbers b h [] (b.check f).2 h := ⟨(interval_self _).symm, Nat.le_refl _, rfl⟩

/-- Entering and leaving a block takes no number. -/
theorem inside (body : Numbers b.enter (.enter :: h) vs b' h') :
    Numbers b h vs b'.leave (.leave :: h') := ⟨body.ids, body.le, body.count⟩

theorem declare (b : Binder) (name : Syntax.Name) (mutable : Bool) (ty : Ty) (h : History) :
    Numbers b h [(b.declare name mutable ty).1] (b.declare name mutable ty).2
      (.declare name :: h) where
  ids := by
    rw [Binder.declare_nextId, Binder.declare_variable, interval_succ (Nat.le_refl _), interval_self]
    rfl
  le := by
    rw [Binder.declare_nextId]
    exact Nat.le_succ _
  count := rfl

end Numbers

theorem bindStmts_numbers {body : List Syntax.Stmt}
    (each : ∀ s ∈ body, ∀ b h, Numbers b h (bindStmt s b).1.declared (bindStmt s b).2 (s.past h))
    (b : Binder) (h : History) :
    Numbers b h (Stmt.declaredIn (bindStmts body b).1) (bindStmts body b).2
      (Syntax.Stmt.pastAll body h) := by
  induction body generalizing b h with
  | nil =>
      rw [bindStmts_nil]
      exact .same rfl h
  | cons s ss ih =>
      rw [List.forall_mem_cons] at each
      rw [bindStmts_cons]
      exact (each.1 b h).append (ih each.2 _ _)

theorem bindBlock_numbers {body : Syntax.Block}
    (each : ∀ s ∈ body.statements, ∀ b h,
      Numbers b h (bindStmt s b).1.declared (bindStmt s b).2 (s.past h)) (b : Binder) (h : History) :
    Numbers b h (bindBlock body b).1.declared (bindBlock body b).2 (body.past h) := by
  rw [bindBlock_eq, Syntax.Block.past_eq, Stmt.declared]
  exact (bindStmts_numbers each b.enter _).inside

/-- Declarations take one number after the other, also those that are refused. -/
theorem bindStmt_numbers (s : Syntax.Stmt) (b : Binder) (h : History) :
    Numbers b h (bindStmt s b).1.declared (bindStmt s b).2 (s.past h) := by
  induction s using Syntax.Stmt.induction generalizing b h with
  | block body ih =>
      rw [bindStmt, Syntax.Stmt.past]
      exact bindBlock_numbers ih b h
  | var span name mutable ty init =>
      rw [bindStmt_var, Syntax.Stmt.past]
      exact Numbers.append (.same (firstValue_nextId ty init b) h) (.declare _ name mutable _ h)
  | ifThen span test yes ih =>
      rw [bindStmt_ifThen, Syntax.Stmt.past]
      exact (Numbers.check b _ h).append (bindBlock_numbers ih _ h)
  | ifElse span test yes no ihYes ihNo =>
      rw [bindStmt_ifElse, Syntax.Stmt.past]
      exact (Numbers.check b _ h).append ((bindBlock_numbers ihYes _ h).append (bindBlock_numbers ihNo _ _))
  | whileLoop span test body ih =>
      cases test with
      | none =>
          rw [bindStmt_whileLoop_none, Syntax.Stmt.past]
          exact bindBlock_numbers ih b h
      | some test =>
          rw [bindStmt_whileLoop_some, Syntax.Stmt.past]
          exact (Numbers.check b _ h).append (bindBlock_numbers ih _ h)
  | doWhile span body test ih =>
      rw [bindStmt_doWhile, Syntax.Stmt.past]
      have inner := (bindBlock_numbers ih b h).append (.check _ (resolveTo · test .bool) _)
      rwa [List.append_nil] at inner
  | forTo span var mutable lower upper body ih =>
      rw [bindStmt_forTo, Syntax.Stmt.past]
      have bounds := (Numbers.check b (resolveTo · lower .int) h).append
        (.check _ (resolveTo · upper .int) h)
      exact bounds.append ((Numbers.declare _ var mutable .int _).append
        (bindBlock_numbers ih _ _)).inside
  | expr e =>
      rw [bindStmt_expr, Syntax.Stmt.past]
      exact .check b (resolve · e) h

theorem numbers_block (body : Syntax.Block) (b : Binder) (h : History) :
    Numbers b h (bindBlock body b).1.declared (bindBlock body b).2 (body.past h) :=
  bindBlock_numbers (fun s _ => bindStmt_numbers s) b h

theorem numbers_all (body : List Syntax.Stmt) (b : Binder) (h : History) :
    Numbers b h (Stmt.declaredIn (bindStmts body b).1) (bindStmts body b).2
      (Syntax.Stmt.pastAll body h) :=
  bindStmts_numbers (fun s _ => bindStmt_numbers s) b h

/-! ### Binding -/

/-- Whether variables are those of the declarations that come next. -/
def Next (all : List Variable) (h : History) (vars : List Variable) : Prop :=
  vars <+: all.drop (count h)

namespace Next

variable {all vs us : List Variable} {h h' : History}

theorem left (next : Next all h (vs ++ us)) : Next all h vs := (List.prefix_append vs us).trans next

theorem right (next : Next all h (vs ++ us)) (count : count h' = count h + vs.length) :
    Next all h' us := by
  obtain ⟨rest, same⟩ := next
  refine ⟨rest, ?_⟩
  rw [count, ← List.drop_drop, ← same, List.append_assoc, List.drop_left]

theorem tail {v : Variable} (next : Next all h (v :: vs)) (name : Syntax.Name) :
    Next all (.declare name :: h) vs := by
  have split : Next all h ([v] ++ vs) := next
  exact split.right rfl

theorem symbol {v : Variable} (next : Next all h (v :: vs)) : all[count h]? = some v := by
  obtain ⟨rest, same⟩ := next
  have first := congrArg List.head? same
  rw [List.head?_drop] at first
  exact first.symm

theorem count_le (next : Next all h vs) (enough : count h ≤ all.length) :
    count h + vs.length ≤ all.length := by
  have := List.IsPrefix.length_le next
  rw [List.length_drop] at this
  omega

end Next

section

variable {all : List Variable} {problems : List Problem} {b : Binder} {h : History}

theorem unknowns_check {α : Type} (b : Binder) (f : Scope → Checked α) :
    unknowns (b.check f).2.problems = unknowns b.problems ++ unknowns (f b.scope).problems :=
  unknowns_append _ _

theorem unknowns_declaredType (b : Binder) (ty : Option Syntax.Name) (init : Expr) :
    unknowns (declaredType b ty init).2.problems = unknowns b.problems := by
  unfold declaredType Binder.resolveType
  split
  · split
    · rfl
    · exact (unknowns_append _ _).trans (List.append_nil _)
  · rfl

theorem unknowns_firstValue (ty : Option Syntax.Name) (init : Syntax.Expr) (b : Binder) :
    unknowns (firstValue ty init b).2.problems =
      unknowns b.problems ++ unknowns (resolveValue b.scope init).problems := by
  unfold firstValue
  dsimp only
  rw [unknowns_check, unknowns_convertTo, List.append_nil, unknowns_declaredType, unknowns_check]

theorem unknowns_declare (b : Binder) (name : Syntax.Name) (mutable : Bool) (ty : Ty) :
    unknowns (b.declare name mutable ty).2.problems = unknowns b.problems := by
  have reported : unknowns (b.problems ++ [⟨name.span, .alreadyDeclared name.text, none⟩]) =
      unknowns b.problems := (unknowns_append _ _).trans (List.append_nil _)
  rcases b.declare_cases name mutable ty with ⟨-, eq⟩ | ⟨-, eq⟩ | ⟨-, eq⟩
  · rw [eq]
  · exact eq ▸ reported
  · rw [eq]

theorem Tracks.readsTo (tracks : Tracks all h b.scope) {e : Syntax.Expr} {ty : Ty}
    (kept : (b.check (resolveTo · e ty)).2.problems ⊆ problems) :
    ReadsTo (meaning all h) problems ty e (b.check (resolveTo · e ty)).1 := by
  rw [← funext tracks.found]
  exact resolveTo_readsTo tracks.functions (List.append_subset.1 kept).2

theorem Tracks.readsFirst (tracks : Tracks all h b.scope) {ty : Option Syntax.Name}
    {init : Syntax.Expr} (kept : (firstValue ty init b).2.problems ⊆ problems) :
    ReadsTo (meaning all h) problems (firstValue ty init b).1.1 init (firstValue ty init b).1.2 := by
  rw [← funext tracks.found]
  unfold firstValue at kept ⊢
  dsimp only at kept ⊢
  obtain ⟨typed, converted⟩ := List.append_subset.1 kept
  have first := (Binder.grows_declaredType _ ty _).within typed
  exact ⟨_, resolveValue_values (resolve_reads tracks.functions init) (List.append_subset.1 first).2,
    convertTo_suits converted⟩

theorem Tracks.unknowns_resolveTo (tracks : Tracks all h b.scope) (e : Syntax.Expr) (ty : Ty) :
    unknowns (b.check (resolveTo · e ty)).2.problems =
      unknowns b.problems ++ (e.unseen h).map mention := by
  rw [unknowns_check, Bound.unknowns_resolveTo tracks.functions, tracks.unseen]

/-- A block is closed, so after it the scope is as before. -/
theorem Tracks.afterBlock (tracks : Tracks all h b.scope) {body : Syntax.Block}
    (next : Next all h (bindBlock body b).1.declared) :
    Tracks all (body.past h) (bindBlock body b).2.scope := by
  rw [bindBlock_same]
  refine tracks.close (Syntax.closed_block body h) ?_
  rw [(numbers_block body b h).count]
  exact next.count_le tracks.enough

theorem Tracks.afterStmt (tracks : Tracks all h b.scope) {s : Syntax.Stmt}
    (next : Next all h (bindStmt s b).1.declared) :
    Tracks all (s.past h) (bindStmt s b).2.scope := by
  by_cases declares : ∃ span name mutable ty init, s = .var span name mutable ty init
  · obtain ⟨span, name, mutable, ty, init, rfl⟩ := declares
    rw [bindStmt_var] at next ⊢
    rw [Syntax.Stmt.past]
    refine Tracks.declare ?_ next.symbol
    rw [firstValue_scope]
    exact tracks
  · have other : ∀ span name mutable ty init, s ≠ .var span name mutable ty init :=
      fun span name mutable ty init same => declares ⟨span, name, mutable, ty, init, same⟩
    rw [bindStmt_same other]
    refine tracks.close (Syntax.closed_stmt other h) ?_
    rw [(bindStmt_numbers s b h).count]
    exact next.count_le tracks.enough

/-- What binding says about names: the variables they mean, and the reports of those that mean
nothing.  Later statements add problems, so a cause is looked for among all that are kept. -/
structure Lexical (all : List Variable) (problems : List Problem) (b : Binder) (h : History)
    (s : Syntax.Stmt) : Prop where
  resolves : (bindStmt s b).2.problems ⊆ problems → Resolves all problems h s (bindStmt s b).1
  reports : unknowns (bindStmt s b).2.problems = unknowns b.problems ++ (s.unseen h).map mention

theorem bindStmts_lexical {body : List Syntax.Stmt}
    (each : ∀ s ∈ body, ∀ b h, Tracks all h b.scope → Next all h (bindStmt s b).1.declared →
      Lexical all problems b h s)
    (tracks : Tracks all h b.scope) (next : Next all h (Stmt.declaredIn (bindStmts body b).1)) :
    ((bindStmts body b).2.problems ⊆ problems →
        ResolvesAll all problems h body (bindStmts body b).1) ∧
      Tracks all (Syntax.Stmt.pastAll body h) (bindStmts body b).2.scope ∧
      unknowns (bindStmts body b).2.problems =
        unknowns b.problems ++ (Syntax.Stmt.unseenAll body h).map mention := by
  induction body generalizing b h with
  | nil =>
      rw [bindStmts_nil, Syntax.Stmt.pastAll, Syntax.Stmt.unseenAll]
      exact ⟨fun _ => .nil, tracks, (List.append_nil _).symm⟩
  | cons s ss ih =>
      rw [List.forall_mem_cons] at each
      rw [bindStmts_cons] at next ⊢
      rw [Syntax.Stmt.pastAll, Syntax.Stmt.unseenAll, List.map_append]
      rw [Stmt.declaredIn] at next
      obtain ⟨resolves, reports⟩ := each.1 b h tracks next.left
      obtain ⟨resolvesRest, tracksRest, reportsRest⟩ := ih each.2 (tracks.afterStmt next.left)
        (next.right (bindStmt_numbers s b h).count)
      refine ⟨fun kept => ?_, tracksRest, ?_⟩
      · have keptFirst := (grows_all ss (bindStmt s b).2).within kept
        exact .cons (resolves keptFirst) (resolvesRest kept)
      · rw [reportsRest, reports, List.append_assoc]

theorem bindBlock_lexical {body : Syntax.Block}
    (each : ∀ s ∈ body.statements, ∀ b h, Tracks all h b.scope →
      Next all h (bindStmt s b).1.declared → Lexical all problems b h s)
    (tracks : Tracks all h b.scope) (next : Next all h (bindBlock body b).1.declared) :
    ((bindBlock body b).2.problems ⊆ problems →
        ResolvesBlock all problems h body (bindBlock body b).1) ∧
      unknowns (bindBlock body b).2.problems =
        unknowns b.problems ++ (body.unseen h).map mention := by
  rw [bindBlock_eq] at next ⊢
  rw [Syntax.Block.unseen_eq]
  obtain ⟨resolves, -, reports⟩ := bindStmts_lexical (b := b.enter) each tracks.enter next
  exact ⟨fun kept => .mk (resolves kept), reports⟩

/-- Binding a statement gives every name the variable of the nearest declaration. -/
theorem bindStmt_lexical (s : Syntax.Stmt) (b : Binder) (h : History)
    (tracks : Tracks all h b.scope) (next : Next all h (bindStmt s b).1.declared) :
    Lexical all problems b h s := by
  induction s using Syntax.Stmt.induction generalizing b h with
  | block body ih =>
      rw [bindStmt] at next
      obtain ⟨resolves, reports⟩ := bindBlock_lexical ih tracks next
      refine ⟨?_, ?_⟩
      · rw [bindStmt]
        exact fun kept => .block (resolves kept)
      · rw [bindStmt, Syntax.Stmt.unseen]
        exact reports
  | var span name mutable ty init =>
      rw [bindStmt_var] at next
      refine ⟨?_, ?_⟩
      · rw [bindStmt_var]
        intro kept
        have reads := tracks.readsFirst ((Binder.grows_declare _ _ _ _).within kept)
        refine .var ?_ ⟨next.symbol, ?_, ?_, ?_⟩
        all_goals rw [Binder.declare_variable]
        exact reads
      · rw [bindStmt_var, Syntax.Stmt.unseen]
        dsimp only
        rw [unknowns_declare, unknowns_firstValue, unknowns_resolveValue tracks.functions,
          tracks.unseen]
  | ifThen span test yes ih =>
      rw [bindStmt_ifThen] at next
      obtain ⟨resolves, reports⟩ := bindBlock_lexical ih (b := (b.check (resolveTo · test .bool)).2)
        tracks next
      refine ⟨?_, ?_⟩
      · rw [bindStmt_ifThen]
        exact fun kept =>
          .ifThen (tracks.readsTo ((grows_block yes _).within kept)) (resolves kept)
      · rw [bindStmt_ifThen, Syntax.Stmt.unseen, List.map_append, ← List.append_assoc,
          ← tracks.unknowns_resolveTo test .bool]
        exact reports
  | ifElse span test yes no ihYes ihNo =>
      rw [bindStmt_ifElse] at next
      rw [Stmt.declared] at next
      obtain ⟨resolvesYes, reportsYes⟩ := bindBlock_lexical ihYes
        (b := (b.check (resolveTo · test .bool)).2) tracks next.left
      have numbers := numbers_block yes (b.check (resolveTo · test .bool)).2 h
      obtain ⟨resolvesNo, reportsNo⟩ := bindBlock_lexical ihNo
        (Tracks.afterBlock (b := (b.check (resolveTo · test .bool)).2) tracks next.left)
        (next.right numbers.count)
      refine ⟨?_, ?_⟩
      · rw [bindStmt_ifElse]
        intro kept
        have keptYes := (grows_block no _).within kept
        have keptTest := (grows_block yes _).within keptYes
        exact .ifElse (tracks.readsTo keptTest) (resolvesYes keptYes) (resolvesNo kept)
      · rw [bindStmt_ifElse, Syntax.Stmt.unseen, List.map_append, List.map_append,
          ← List.append_assoc, ← List.append_assoc, ← tracks.unknowns_resolveTo test .bool,
          ← reportsYes]
        exact reportsNo
  | whileLoop span test body ih =>
      cases test with
      | none =>
          rw [bindStmt_whileLoop_none] at next
          obtain ⟨resolves, reports⟩ := bindBlock_lexical ih tracks next
          refine ⟨?_, ?_⟩
          · rw [bindStmt_whileLoop_none]
            exact fun kept => .forever (resolves kept)
          · rw [bindStmt_whileLoop_none, Syntax.Stmt.unseen]
            exact reports
      | some test =>
          rw [bindStmt_whileLoop_some] at next
          obtain ⟨resolves, reports⟩ := bindBlock_lexical ih
            (b := (b.check (resolveTo · test .bool)).2) tracks next
          refine ⟨?_, ?_⟩
          · rw [bindStmt_whileLoop_some]
            exact fun kept =>
              .whileLoop (tracks.readsTo ((grows_block body _).within kept)) (resolves kept)
          · rw [bindStmt_whileLoop_some, Syntax.Stmt.unseen, List.map_append, ← List.append_assoc,
              ← tracks.unknowns_resolveTo test .bool]
            exact reports
  | doWhile span body test ih =>
      rw [bindStmt_doWhile] at next
      obtain ⟨resolves, reports⟩ := bindBlock_lexical ih tracks next
      have after := tracks.afterBlock next
      refine ⟨?_, ?_⟩
      · rw [bindStmt_doWhile]
        intro kept
        have keptBody := (Binder.grows_check _ (resolveTo · test .bool)).within kept
        exact .doWhile (resolves keptBody) (after.readsTo kept)
      · rw [bindStmt_doWhile, Syntax.Stmt.unseen, List.map_append, ← List.append_assoc, ← reports]
        exact after.unknowns_resolveTo test .bool
  | forTo span var mutable lower upper body ih =>
      rw [bindStmt_forTo] at next
      rw [Stmt.declared] at next
      have bounds : Tracks all h (b.check (resolveTo · lower .int)).2.scope := tracks
      have inside : Tracks all (.enter :: h) ((b.check (resolveTo · lower .int)).2.check
        (resolveTo · upper .int)).2.enter.scope := tracks.enter
      have entered : Next all (.enter :: h) _ := next
      obtain ⟨resolves, reports⟩ := bindBlock_lexical ih (inside.declare entered.symbol)
        (entered.tail var)
      refine ⟨?_, ?_⟩
      · rw [bindStmt_forTo]
        intro kept
        have keptVar := (grows_block body _).within kept
        have keptUpper := (Binder.grows_declare _ _ _ _).within keptVar
        have keptLower := (Binder.grows_check _ (resolveTo · upper .int)).within keptUpper
        refine .forTo (tracks.readsTo keptLower) (bounds.readsTo keptUpper)
          ⟨entered.symbol, ?_, ?_, ?_⟩ (resolves kept)
        all_goals rw [Binder.declare_variable]
      · rw [bindStmt_forTo, Syntax.Stmt.unseen, List.map_append, List.map_append,
          ← List.append_assoc, ← List.append_assoc, ← tracks.unknowns_resolveTo lower .int,
          ← bounds.unknowns_resolveTo upper .int]
        rw [unknowns_declare] at reports
        exact reports
  | expr e =>
      refine ⟨?_, ?_⟩
      · rw [bindStmt_expr]
        exact fun kept => .expr (tracks.reads (List.append_subset.1 kept).2)
      · rw [bindStmt_expr, Syntax.Stmt.unseen, ← tracks.unseen, ← unknowns_resolve tracks.functions]
        exact unknowns_check b (resolve · e)

end

/-! ## Programs one after the other -/

/-- Programs and what they were bound to, newest first: each after those before it, with numbers
that start where the last one stopped or later. -/
inductive InTurn : List Syntax.Program → List Submission → Nat → Prop
  | nil (nextId : Nat) : InTurn [] [] nextId
  | cons {programs : List Syntax.Program} {earlier : List Submission} {nextId start : Nat}
      (before : InTurn programs earlier nextId) (later : nextId ≤ start) (source : Source)
      (program : Syntax.Program) :
      InTurn (program :: programs) ((bindProgram earlier start source program).1 :: earlier)
        (bindProgram earlier start source program).2

/-- The history after programs, each of which is in a block inside of the one before. -/
def historyOf : List Syntax.Program → History
  | [] => []
  | program :: programs => Syntax.Stmt.pastAll program.statements (.enter :: historyOf programs)

/-- The variables of all declarations, oldest first. -/
def symbolsOf : List Submission → List Variable
  | [] => []
  | newest :: older => symbolsOf older ++ newest.statement.declared

/-- What the chain of submissions has to do with the text of its programs. -/
structure Agrees (programs : List Syntax.Program) (chain : List Submission) (nextId : Nat) : Prop where
  tracks : Tracks (symbolsOf chain) (historyOf programs) (scopeAfter chain)
  count : count (historyOf programs) = (symbolsOf chain).length
  ids : ((symbolsOf chain).map (·.id)).Pairwise (· < ·)
  below : ∀ v ∈ symbolsOf chain, v.id < nextId

/-- Variables that come later do not change what names mean. -/
theorem Tracks.more {all : List Variable} {h : History} {scope : Scope}
    (tracks : Tracks all h scope) (new : List Variable) : Tracks (all ++ new) h scope where
  found text := by
    rw [tracks.found, meaning, meaning]
    cases found : nearest? text 0 h with
    | none => rfl
    | some k =>
        have known : k < all.length := Nat.lt_of_lt_of_le (nearest?_lt found) tracks.enough
        simp [List.getElem?_append_left known]
  accepted := by
    refine List.Forall₂.imp ?_ tracks.accepted
    rintro d v ⟨symbol, named⟩
    have known := (List.getElem?_eq_some_iff.1 symbol).1
    exact ⟨(List.getElem?_append_left known).trans symbol, named⟩
  functions := tracks.functions
  enough := by
    have := tracks.enough
    rw [List.length_append]
    omega

theorem tracks_builtins : Tracks [] [] (scopeAfter []) where
  found _ := rfl
  accepted := .nil
  functions := overloads_scopeAfter []
  enough := Nat.le_refl _

/-- The scope after a program is the one around the next. -/
theorem scopeAfter_bindProgram (earlier : List Submission) (nextId : Nat) (source : Source)
    (program : Syntax.Program) :
    scopeAfter ((bindProgram earlier nextId source program).1 :: earlier) =
      (bindStmts program.statements (.atStart earlier nextId)).2.scope := by
  obtain ⟨vs, same⟩ := extends_all program.statements (.atStart earlier nextId)
  have vars : (bindProgram earlier nextId source program).1.vars = vs := by
    show (bindStmts program.statements (.atStart earlier nextId)).2.scope.declared = vs
    rw [same]
    rfl
  rw [same, scopeAfter, ← frames_scopeAfter, Submission.frame, vars]
  rfl

theorem pairwise_interval (a b : Nat) : (interval a b).Pairwise (· < ·) :=
  List.pairwise_lt_range'

/-- What binding one more program gives, where the programs before it agree with their text. -/
theorem Agrees.bindProgram {programs : List Syntax.Program} {earlier : List Submission}
    {nextId start : Nat} (agrees : Agrees programs earlier nextId) (later : nextId ≤ start)
    (source : Source) (program : Syntax.Program) :
    Agrees (program :: programs) ((bindProgram earlier start source program).1 :: earlier)
        (bindProgram earlier start source program).2 ∧
      ResolvesAll (symbolsOf ((Bound.bindProgram earlier start source program).1 :: earlier))
        (bindStmts program.statements (.atStart earlier start)).2.problems
        (.enter :: historyOf programs) program.statements
        (bindStmts program.statements (.atStart earlier start)).1 ∧
      unknowns (bindStmts program.statements (.atStart earlier start)).2.problems =
        (Syntax.Stmt.unseenAll program.statements (.enter :: historyOf programs)).map mention := by
  have declared : symbolsOf ((Bound.bindProgram earlier start source program).1 :: earlier) =
      symbolsOf earlier ++
        Stmt.declaredIn (bindStmts program.statements (.atStart earlier start)).1 := by
    rw [symbolsOf]
    show _ ++ Stmt.declared (.block _) = _
    rw [Stmt.declared]
    rfl
  have numbers := numbers_all program.statements (.atStart earlier start)
    (.enter :: historyOf programs)
  have next : Next (symbolsOf ((Bound.bindProgram earlier start source program).1 :: earlier))
      (.enter :: historyOf programs)
      (Stmt.declaredIn (bindStmts program.statements (.atStart earlier start)).1) := by
    rw [Next, declared]
    refine ⟨[], ?_⟩
    show _ = List.drop (Syntax.History.count (historyOf programs)) _
    rw [agrees.count, List.drop_left, List.append_nil]
  have tracks : Tracks (symbolsOf ((Bound.bindProgram earlier start source program).1 :: earlier))
      (.enter :: historyOf programs) (Binder.atStart earlier start).scope := by
    rw [declared]
    exact (agrees.tracks.more _).enter
  obtain ⟨resolves, after, reports⟩ := bindStmts_lexical (fun s _ => bindStmt_lexical s) tracks next
  refine ⟨⟨?_, ?_, ?_, ?_⟩, resolves (List.Subset.refl _), reports⟩
  · rw [scopeAfter_bindProgram]
    exact after
  · rw [declared, List.length_append, ← agrees.count]
    exact numbers.count
  · rw [declared, List.map_append, numbers.ids, List.pairwise_append]
    refine ⟨agrees.ids, pairwise_interval _ _, ?_⟩
    intro i old j new
    obtain ⟨v, member, rfl⟩ := List.mem_map.1 old
    have below := agrees.below v member
    have := (mem_interval.1 new).1
    change start ≤ j at this
    omega
  · intro v member
    rw [declared, List.mem_append] at member
    have le : start ≤ (Bound.bindProgram earlier start source program).2 := numbers.le
    rcases member with old | new
    · have := agrees.below v old
      omega
    · have listed := List.mem_map_of_mem (f := (·.id)) new
      rw [numbers.ids] at listed
      exact (mem_interval.1 listed).2

theorem InTurn.agrees {programs : List Syntax.Program} {chain : List Submission} {nextId : Nat}
    (inTurn : InTurn programs chain nextId) : Agrees programs chain nextId := by
  induction inTurn with
  | nil nextId => exact ⟨tracks_builtins, rfl, .nil, fun _ member => nomatch member⟩
  | cons before later source program ih => exact (ih.bindProgram later source program).1

/-- Names mean the nearest declaration, whatever problems a program and those before it have.  The
program is read with every name as the variable made for that declaration, and it is the only such
reading; no part is given up without a cause, and the unknown variables that are reported are the
names without a declaration.  The variables offered to later programs are the accepted declarations
outside of all blocks, and are found before those of earlier programs.  Numbers increase from one
declaration to the next. -/
theorem bindProgram_lexical {programs : List Syntax.Program} {earlier : List Submission}
    {nextId start : Nat} (inTurn : InTurn programs earlier nextId) (later : nextId ≤ start)
    (source : Source) (program : Syntax.Program) :
    ∃ all body problems,
      all = symbolsOf ((bindProgram earlier start source program).1 :: earlier) ∧
      (bindProgram earlier start source program).1.statement = .block body ∧
      (bindProgram earlier start source program).1.diagnostics =
        problems.map (Problem.diagnostic source) ++
          (earlier.head?.map Submission.diagnostics).getD [] ∧
      ResolvesAll all problems (.enter :: historyOf programs) program.statements body ∧
      (∀ other, ResolvesAll all problems (.enter :: historyOf programs) program.statements other →
        other = body) ∧
      unknowns problems =
        (Syntax.Stmt.unseenAll program.statements (.enter :: historyOf programs)).map mention ∧
      Accepted all (block 0 (historyOf (program :: programs)))
        (bindProgram earlier start source program).1.vars ∧
      (∀ text, meaning all (historyOf (program :: programs)) text =
        ((bindProgram earlier start source program).1.vars.find? (·.name = text)).or
          (meaning all (historyOf programs) text)) ∧
      all.length = count (historyOf (program :: programs)) ∧
      (all.map (·.id)).Pairwise (· < ·) := by
  obtain ⟨agrees, resolves, reports⟩ := inTurn.agrees.bindProgram later source program
  have accepted : Accepted _ (block 0 (historyOf (program :: programs)))
      (bindProgram earlier start source program).1.vars := agrees.tracks.accepted
  exact ⟨_, _, _, rfl, rfl, rfl, resolves, fun _ other => other.unique resolves, reports, accepted,
    accepted.meaning_past, agrees.count.symm, agrees.ids⟩

/-- The program `var x = 1`. -/
def firstProgram : Syntax.Program :=
  ⟨[.var ⟨0, 9⟩ (.read "x" ⟨4, 5⟩) false none (.literal ⟨8, 9⟩ (.int 1))], ⟨9, 9⟩⟩

/-- The program `var y = x var y = 2 for x = 0 to x { x z }`. -/
def secondProgram : Syntax.Program :=
  ⟨[.var ⟨0, 9⟩ (.read "y" ⟨4, 5⟩) false none (.name (.read "x" ⟨8, 9⟩)),
    .var ⟨10, 19⟩ (.read "y" ⟨14, 15⟩) false none (.literal ⟨18, 19⟩ (.int 2)),
    .forTo ⟨20, 42⟩ (.read "x" ⟨24, 25⟩) false (.literal ⟨28, 29⟩ (.int 0))
      (.name (.read "x" ⟨33, 34⟩))
      (.mk ⟨35, 42⟩ [.expr (.name (.read "x" ⟨37, 38⟩)), .expr (.name (.read "z" ⟨39, 40⟩))])],
    ⟨42, 42⟩⟩

/-- The first program, bound. -/
def firstBound : Submission × Nat := bindProgram [] 0 ⟨"var x = 1"⟩ firstProgram

/-- The `x` of the first program, declaration 0. -/
def firstX : Variable := ⟨0, "x", .int, false, some ⟨4, 5⟩⟩

/-- The `x` of the loop in the second program, declaration 3. -/
def loopX : Variable := ⟨7, "x", .int, false, some ⟨24, 25⟩⟩

/-- The variables of both programs. -/
def bothSymbols : List Variable :=
  [firstX, ⟨5, "y", .int, false, some ⟨4, 5⟩⟩, ⟨6, "y", .int, false, some ⟨14, 15⟩⟩, loopX]

/-- What the second program is read as. -/
def secondBody : List Stmt :=
  [.declare ⟨5, "y", .int, false, some ⟨4, 5⟩⟩ (.var firstX),
    .declare ⟨6, "y", .int, false, some ⟨14, 15⟩⟩ (.literal (.int 2)),
    .forTo loopX (.literal (.int 0)) (.var firstX) (.block [.expr (.var loopX), .expr .error])]

theorem secondBody_resolves {problems : List Problem}
    (reported : Reported problems ⟨39, 40⟩ (.unknownVariable "z")) :
    ResolvesAll bothSymbols problems (.enter :: historyOf [firstProgram]) secondProgram.statements
      secondBody := by
  have number : ∀ h span n, ReadsTo (meaning bothSymbols h) problems .int
      (.literal span (.int n)) (.literal (.int n)) :=
    fun _ span n => ⟨_, .value (.literal span (.int n)) nofun, .same rfl⟩
  have name : ∀ h span, meaning bothSymbols h "x" = some firstX →
      ReadsTo (meaning bothSymbols h) problems .int (.name (.read "x" span)) (.var firstX) :=
    fun _ _ meant => ⟨_, .value (.name (.var rfl meant)) (by decide), .same rfl⟩
  refine .cons (.var (name _ _ (by decide)) ⟨rfl, rfl, rfl, rfl⟩)
    (.cons (.var (number _ _ _) ⟨rfl, rfl, rfl, rfl⟩) (.cons ?_ .nil))
  refine .forTo (number _ _ _) (name _ _ (by decide)) ⟨rfl, rfl, rfl, rfl⟩ (.mk ?_)
  exact .cons (.expr (.name (.var rfl (by decide))))
    (.cons (.expr (.name (.meaningless rfl (by decide) reported))) .nil)

/-- The first `x` of the second program and the bound of the loop are the `x` of the first program,
and the last one is the variable of the loop.  Declaration 2 is refused, and only `z` is unknown. -/
theorem secondProgram_lexical :
    InTurn [firstProgram] [firstBound.1] firstBound.2 ∧ firstBound.2 ≤ 5 ∧
      (bindProgram [firstBound.1] 5 ⟨""⟩ secondProgram).1.statement = .block secondBody ∧
      ∃ problems,
        ResolvesAll bothSymbols problems (.enter :: historyOf [firstProgram])
          secondProgram.statements secondBody ∧
        (∀ other, ResolvesAll bothSymbols problems (.enter :: historyOf [firstProgram])
          secondProgram.statements other → other = secondBody) ∧
        unknowns problems = [(⟨39, 40⟩, "z")] ∧
        Accepted bothSymbols [(1, .read "y" ⟨4, 5⟩)]
          (bindProgram [firstBound.1] 5 ⟨""⟩ secondProgram).1.vars ∧
        meaning bothSymbols (historyOf [secondProgram, firstProgram]) "x" = some firstX ∧
        (bothSymbols.map (·.id)).Pairwise (· < ·) := by
  have inTurn : InTurn [firstProgram] [firstBound.1] firstBound.2 :=
    .cons (.nil 0) (Nat.le_refl 0) ⟨"var x = 1"⟩ firstProgram
  have later : firstBound.2 ≤ 5 := by decide
  obtain ⟨all, body, problems, symbols, statement, -, resolves, only, unseen, accepted, -, -, ids⟩ :=
    bindProgram_lexical inTurn later ⟨""⟩ secondProgram
  obtain rfl : all = bothSymbols := by
    rw [symbols]
    decide +kernel
  have unseen : unknowns problems = [(⟨39, 40⟩, "z")] := unseen
  -- there is one reading only, so it is enough to give one
  obtain rfl : secondBody = body :=
    only _ (secondBody_resolves (reported_of_unknown (unseen ▸ List.mem_cons_self)))
  exact ⟨inTurn, later, statement, problems, resolves, only, unseen, accepted, by decide, ids⟩

end Bound

end ScriptLang
