/-
# ScriptLang.Proofs.Suppressing -- one cause, one report

What cannot be resolved becomes unknown, and every step that meets something
unknown passes it on without a word.  Each step repeats that rule on its own, so
it is stated once, as what a step has to do (`Judges`), and shown of each.

The steps are the nodes of a tree, each resolved after its parts: the problems of
a node are those of its parts and then its own (`Operand.bind_splits`).  An own
problem needs parts that are all known, and what is known has no problem below
it; so the nodes on a path that report something are one at most, and there are
no more problems than leaves.
-/
import ScriptLang.Proofs.Checking

namespace ScriptLang

set_option autoImplicit false

namespace Syntax

/-- Whether a call of a name with so many arguments is followed up: it converts one value to a type
that can be written, or it is the call of a builtin. -/
def Name.isCallable (callee : Name) (arity : Nat) : Bool :=
  (arity = 1 && (Ty.ofName? callee.text).isSome) || Builtin.all.any (·.name = callee.text)

mutual

/-- The variable names that are looked up, in order; those in the arguments of a call that is not
followed up are not. -/
def Expr.uses : Expr → List Name
  | .literal _ _ => []
  | .name n => [n]
  | .unary _ _ _ operand => operand.uses
  | .binary _ left _ _ right => left.uses ++ right.uses
  | .assign _ target value => value.uses ++ [target]
  | .call _ callee args => if callee.isCallable args.length then Expr.usesIn args else []
  | .paren _ inner => inner.uses

def Expr.usesIn : List Expr → List Name
  | [] => []
  | e :: es => e.uses ++ Expr.usesIn es

end

mutual

/-- Whether an expression changes no variable. -/
def Expr.isPlain : Expr → Bool
  | .literal _ _ => true
  | .name _ => true
  | .unary _ op _ operand => !op.isStep && operand.isPlain
  | .binary _ left _ _ right => left.isPlain && right.isPlain
  | .assign _ _ _ => false
  | .call _ _ args => Expr.arePlain args
  | .paren _ inner => inner.isPlain

def Expr.arePlain : List Expr → Bool
  | [] => true
  | e :: es => e.isPlain && Expr.arePlain es

end

mutual

/-- How many names, literals and calls without arguments an expression has. -/
def Expr.leafCount : Expr → Nat
  | .literal _ _ => 1
  | .name _ => 1
  | .unary _ _ _ operand => operand.leafCount
  | .binary _ left _ _ right => left.leafCount + right.leafCount
  | .assign _ _ value => value.leafCount + 1
  | .call _ _ [] => 1
  | .call _ _ (e :: es) => e.leafCount + Expr.leafCountOf es
  | .paren _ inner => inner.leafCount

def Expr.leafCountOf : List Expr → Nat
  | [] => 0
  | e :: es => e.leafCount + Expr.leafCountOf es

end

theorem Expr.usesIn_eq (es : List Expr) : Expr.usesIn es = es.flatMap Expr.uses := by
  induction es with
  | nil => rfl
  | cons e es ih => simp [Expr.usesIn, ih]

theorem Expr.arePlain_iff {es : List Expr} :
    Expr.arePlain es = true ↔ ∀ e ∈ es, e.isPlain = true := by
  induction es with
  | nil => simp [Expr.arePlain]
  | cons e es ih => simp [Expr.arePlain, ih]

theorem Expr.leafCount_call (span : Span) (callee : Name) {args : List Expr} (any : args ≠ []) :
    (Expr.call span callee args).leafCount = Expr.leafCountOf args := by
  cases args with
  | nil => exact absurd rfl any
  | cons e es => rw [Expr.leafCount, Expr.leafCountOf]

theorem Expr.leafCount_pos (e : Expr) : 0 < e.leafCount := by
  induction e using Expr.induction with
  | literal span value => simp [Expr.leafCount]
  | name n => simp [Expr.leafCount]
  | unary span op opSpan operand ih => simpa [Expr.leafCount] using ih
  | binary span left op opSpan right ihLeft ihRight =>
      rw [Expr.leafCount]
      omega
  | assign span target value ih => simp [Expr.leafCount]
  | call span callee args ih =>
      cases args with
      | nil => simp [Expr.leafCount]
      | cons e es =>
          have first := ih e List.mem_cons_self
          rw [Expr.leafCount]
          omega
  | paren span inner ih => simpa [Expr.leafCount] using ih

/-- Whether nothing is reported about a name that has no meaning: it is missing, or its variable is
of unknown type. -/
def Name.Blank (scope : Scope) (name : Name) : Prop :=
  name.isMissing = true ∨ ∃ v, scope.find? name.text = some v ∧ v.ty = .unknown

end Syntax

namespace Bound

/-- An expression in its place: one that must have a value, or one that may be void. -/
structure Operand where
  expr : Syntax.Expr
  mayBeVoid : Bool

/-- The parts that are resolved before an expression. -/
def partsOf : Syntax.Expr → List Operand
  | .literal _ _ => []
  | .name _ => []
  | .unary _ _ _ operand => [⟨operand, false⟩]
  | .binary _ left _ _ right => [⟨left, false⟩, ⟨right, false⟩]
  | .assign _ _ value => [⟨value, false⟩]
  | .call _ callee args => if callee.isCallable args.length then args.map (⟨·, false⟩) else []
  | .paren _ inner => [⟨inner, true⟩]

namespace Operand

/-- Resolve an expression in its place. -/
def bind (scope : Scope) (n : Operand) : Checked Expr :=
  if n.mayBeVoid then resolve scope n.expr else resolveValue scope n.expr

def parts (n : Operand) : List Operand := partsOf n.expr

/-- The problems of the parts, in order. -/
def below (scope : Scope) (n : Operand) : List Problem :=
  n.parts.flatMap fun part => (part.bind scope).problems

/-- The problems that are not those of the parts. -/
def own (scope : Scope) (n : Operand) : List Problem :=
  (n.bind scope).problems.drop (n.below scope).length

/-- Whether a list of nodes goes down a tree, each a part of the one before. -/
def IsPath (path : List Operand) : Prop := path.IsChain fun n part => part ∈ n.parts

end Operand

/-! ## What a step has to do -/

/-- Whether a step is unknown without a report if there is a reason above it, and otherwise is
unknown exactly if it reports, which it does once at most. -/
structure Judges (reason : Prop) (c : Checked Expr) : Prop where
  silent : reason → c.value.isUnknown = true ∧ c.problems = []
  heard : ¬ reason → (c.value.isUnknown = true ↔ c.problems ≠ []) ∧ c.problems.length ≤ 1

namespace Judges

variable {reason other : Prop} {c : Checked Expr}

theorem congr (same : reason ↔ other) (judges : Judges reason c) : Judges other c where
  silent there := judges.silent (same.2 there)
  heard none := judges.heard fun there => none (same.1 there)

theorem of_silent (there : reason) (unknown : c.value.isUnknown = true) (none : c.problems = []) :
    Judges reason c where
  silent _ := ⟨unknown, none⟩
  heard absent := absurd there absent

theorem of_known (absent : ¬ reason) (known : c.value.isUnknown = false) (none : c.problems = []) :
    Judges reason c where
  silent there := absurd there absent
  heard _ := by simp [known, none]

theorem of_report (absent : ¬ reason) (unknown : c.value.isUnknown = true)
    (some : c.problems ≠ []) (one : c.problems.length ≤ 1) : Judges reason c where
  silent there := absurd there absent
  heard _ := ⟨iff_of_true unknown some, one⟩

/-- A step is unknown exactly if there is a reason for it or it reports. -/
theorem unknown_iff (judges : Judges reason c) :
    c.value.isUnknown = true ↔ reason ∨ c.problems ≠ [] := by
  by_cases there : reason
  · exact iff_of_true (judges.silent there).1 (.inl there)
  · rw [(judges.heard there).1]
    simp [there]

theorem length_le (judges : Judges reason c) : c.problems.length ≤ 1 := by
  by_cases there : reason
  · simp [(judges.silent there).2]
  · exact (judges.heard there).2

end Judges

theorem isUnknown_eq_false {e : Expr} : e.isUnknown = false ↔ e.ty ≠ .unknown :=
  decide_eq_false_iff_not

theorem isUnknown_error : Expr.error.isUnknown = true := rfl

theorem requireValue_unknown {span : Span} {e : Expr} (unknown : e.isUnknown = true) :
    requireValue span e = ⟨e, []⟩ := by
  refine requireValue_eq ?_ span
  rw [show e.ty = .unknown from of_decide_eq_true unknown]
  decide

/-- Asking for a value after a step makes a step again. -/
theorem requireValue_judges {reason : Prop} {c : Checked Expr} (judges : Judges reason c)
    (span : Span) : Judges reason (c >>= requireValue span) := by
  by_cases there : reason
  · obtain ⟨unknown, none⟩ := judges.silent there
    refine .of_silent there ?_ ?_
    · simpa [requireValue_unknown unknown] using unknown
    · simp [requireValue_unknown unknown, none]
  obtain ⟨failed, one⟩ := judges.heard there
  cases unknown : c.value.isUnknown with
  | true =>
      refine .of_report there ?_ ?_ ?_
      · simpa [requireValue_unknown unknown] using unknown
      · simpa [requireValue_unknown unknown] using failed.1 unknown
      · simpa [requireValue_unknown unknown] using one
  | false =>
      have clean : c.problems = [] := by
        by_contra some
        rw [failed.2 some] at unknown
        cases unknown
      by_cases void : c.value.ty = .void
      · have same := requireValue_void void span
        refine .of_report there ?_ ?_ ?_
        · simp [same, isUnknown_error]
        · simp [same]
        · simp [same, clean]
      · have same := requireValue_eq void span
        refine .of_known there ?_ ?_
        · simpa [same] using unknown
        · simp [same, clean]

theorem resolveName_judges (scope : Scope) (name : Syntax.Name) :
    Judges (name.Blank scope) (resolveName scope name) := by
  cases missing : name.isMissing with
  | true =>
      refine .of_silent (.inl missing) ?_ ?_ <;> simp [resolveName, missing, isUnknown_error]
  | false =>
      cases found : scope.find? name.text with
      | none =>
          have absent : ¬ name.Blank scope := by
            rintro (there | ⟨v, there, -⟩)
            · simp [missing] at there
            · simp [found] at there
          refine .of_report absent ?_ ?_ ?_ <;>
            simp [resolveName, missing, found, reportUnknown, Checked.reportWith, isUnknown_error]
      | some v =>
          rw [resolveName_eq missing found]
          by_cases unknown : v.ty = .unknown
          · exact .of_silent (.inr ⟨v, found, unknown⟩) (decide_eq_true unknown) rfl
          · refine .of_known ?_ (decide_eq_false unknown) rfl
            rintro (there | ⟨u, there, ty⟩)
            · simp [missing] at there
            · rw [found] at there
              cases there
              exact unknown ty

theorem applyUnary_judges {op : UnaryOp} (plain : op.isStep = false) (opSpan : Span)
    (operand : Expr) (span : Span) :
    Judges (operand.isUnknown = true) (applyUnary op opSpan operand span) := by
  cases unknown : operand.isUnknown with
  | true => refine .of_silent rfl ?_ ?_ <;> simp [applyUnary, unknown, isUnknown_error]
  | false =>
      have absent : ¬ false = true := Bool.false_ne_true
      cases found : UnaryRule.find? op operand.ty with
      | none =>
          refine .of_report absent ?_ ?_ ?_ <;>
            simp [applyUnary, unknown, found, Checked.report, isUnknown_error]
      | some rule =>
          obtain ⟨same, -⟩ := UnaryRule.of_find? found
          have applied : applyUnary op opSpan operand span = ⟨.unary rule operand, []⟩ := by
            unfold applyUnary
            rw [unknown, found]
            cases op <;> first | rfl | cases plain
          rw [applied]
          refine .of_known absent (isUnknown_eq_false.2 ?_) rfl
          show rule.result ≠ .unknown
          rw [same]
          exact isUnknown_eq_false.1 unknown

theorem applyBinary_judges (left : Expr) (op : BinaryOp) (opSpan : Span) (right : Expr) :
    Judges (left.isUnknown = true ∨ right.isUnknown = true) (applyBinary left op opSpan right) := by
  by_cases unknown : left.isUnknown = true ∨ right.isUnknown = true
  · have either : (left.isUnknown || right.isUnknown) = true := by simpa using unknown
    refine .of_silent unknown ?_ ?_ <;> simp [applyBinary, either, isUnknown_error]
  · have neither : (left.isUnknown || right.isUnknown) = false := by simpa using unknown
    cases found : BinaryRule.find? op left.ty right.ty with
    | none =>
        refine .of_report unknown ?_ ?_ ?_ <;>
          simp [applyBinary, neither, found, Checked.report, isUnknown_error]
    | some rule =>
        obtain ⟨result, announced, same⟩ := Option.map_eq_some_iff.1 found
        have applied : applyBinary left op opSpan right = ⟨.binary left rule right, []⟩ := by
          unfold applyBinary
          rw [neither, found]
          rfl
        rw [applied]
        refine .of_known unknown (isUnknown_eq_false.2 ?_) rfl
        show rule.result ≠ .unknown
        rw [← same]
        exact result?_ne_unknown announced

/-- A cast to a known type. -/
theorem cast_judges {ty : Ty} (known : ty ≠ .unknown) (e : Expr) (span : Span) :
    Judges (e.isUnknown = true) (convertTo e span ty true) := by
  cases unknown : e.isUnknown with
  | true =>
      have ty' : e.ty = .unknown := of_decide_eq_true unknown
      have impossible : Conversion.between .unknown ty = .impossible := by
        cases ty <;> first | rfl | exact absurd rfl known
      refine .of_silent rfl ?_ ?_ <;> simp [convertTo, ty', impossible, isUnknown_error]
  | false =>
      have source := isUnknown_eq_false.1 unknown
      by_cases impossible : Conversion.between e.ty ty = .impossible
      · refine .of_report Bool.false_ne_true ?_ ?_ ?_ <;>
          simp [convertTo, impossible, source, known, Checked.report, isUnknown_error]
      · refine .of_known Bool.false_ne_true (isUnknown_eq_false.2 ?_) ?_
        · rw [convertTo_value impossible]
          split
          · exact source
          · exact known
        · simp [convertTo, impossible]

/-! ## Calls -/

/-- An argument of a known type is converted without a report exactly if the parameter takes it. -/
theorem convertArg_silent_iff {p : Parameter} (known : p.ty ≠ .unknown) {e : Expr}
    (source : e.ty ≠ .unknown) (span : Span) :
    ((convertArg span e p).problems = [] ↔ passCost? p.ty e.ty ≠ none) ∧
      (convertArg span e p).problems.length ≤ 1 := by
  unfold convertArg passCost?
  by_cases any : p.ty = .any
  · simp [any]
  · rw [if_neg any, if_neg any]
    cases between : Conversion.between e.ty p.ty <;>
      simp [convertTo, between, source, known, Conversion.isImplicit, Checked.report]

theorem convertArgs_silent_iff {ps : List Parameter} (parameters : ∀ p ∈ ps, p.ty ≠ .unknown)
    {spans : List Span} {args : List Expr} (known : ∀ e ∈ args, e.ty ≠ .unknown)
    (sameSpans : spans.length = args.length) (sameArgs : args.length = ps.length) :
    ((convertArgs spans args ps).problems = [] ↔ callCost? ps args ≠ none) ∧
      (convertArgs spans args ps).problems.length ≤ ps.length := by
  have each := OneEach.of_length sameSpans sameArgs
  clear sameSpans sameArgs
  induction each with
  | nil => simp [convertArgs, callCost?]
  | cons p span e _ ih =>
      rw [List.forall_mem_cons] at parameters known
      obtain ⟨first, one⟩ := convertArg_silent_iff parameters.1 known.1 span
      obtain ⟨rest, few⟩ := ih parameters.2 known.2
      rw [convertArgs_cons, List.append_eq_nil_iff, first, rest, callCost?_cons]
      constructor
      · cases passCost? p.ty e.ty <;> cases callCost? _ _ <;> simp
      · rw [List.length_append, List.length_cons]
        omega

theorem Builtin.parameters_length_le (b : Builtin) : b.parameters.length ≤ 1 := by
  cases b <;> decide

theorem reportArity_length_le {f : Function} (few : f.parameters.length ≤ 1) (spans : List Span)
    (span : Span) : (reportArity f spans span).problems.length ≤ 1 := by
  unfold reportArity
  dsimp only
  split
  · rw [List.length_map, List.length_drop]
    omega
  · split <;> simp [Checked.report]

theorem bestOverload?_cost {candidates : List Function} {args : List Expr} {f : Function}
    (best : bestOverload? candidates args = some f) : callCost? f.parameters args ≠ none := by
  obtain ⟨⟨cost, g⟩, chosen, rfl⟩ := Option.map_eq_some_iff.1 best
  rcases mem_foldl_cheaper chosen with none | member
  · cases none
  · obtain ⟨-, costed⟩ := mem_costed.1 member
    simp [costed]

section

variable {callee : Syntax.Name} {spans : List Span} {args : List Expr} {span : Span}
  (known : ¬ ∃ e ∈ args, e.isUnknown = true) (sameSpans : spans.length = args.length)

include known

theorem any_isUnknown_eq_false : args.any Expr.isUnknown = false := by
  rw [List.any_eq_false]
  intro e member there
  exact known ⟨e, member, there⟩

include sameSpans

/-- Where no function takes so many arguments, the first one reports its own number. -/
theorem wrongArity_judges {f : Function} {rest : List Function} (few : f.parameters.length ≤ 1)
    (none : (f :: rest).filter (fun g => g.parameters.length = args.length) = []) :
    Judges (∃ e ∈ args, e.isUnknown = true) (applyOverloads (f :: rest) callee spans args span) := by
  have applied : applyOverloads (f :: rest) callee spans args span =
      (reportArity f spans span >>= fun _ => pure .error) := by
    unfold applyOverloads
    rw [any_isUnknown_eq_false known, none]
    rfl
  have arity : f.parameters.length ≠ spans.length := by
    intro same
    refine List.filter_eq_nil_iff.1 none f List.mem_cons_self ?_
    exact decide_eq_true (same.trans sameSpans)
  rw [applied]
  refine .of_report known ?_ ?_ ?_
  · simp [isUnknown_error]
  · simpa using reportArity_ne_nil arity
  · simpa using reportArity_length_le few spans span

/-- A function that takes so many arguments converts them without a report exactly if it takes them
all. -/
theorem convertArgs_builtin (b : Builtin) (arity : b.function.parameters.length = args.length) :
    ((convertArgs spans args b.function.parameters).problems = [] ↔
        callCost? b.function.parameters args ≠ none) ∧
      (convertArgs spans args b.function.parameters).problems.length ≤ 1 := by
  have typed : ∀ e ∈ args, e.ty ≠ .unknown := fun e member there =>
    known ⟨e, member, decide_eq_true there⟩
  obtain ⟨silent, few⟩ := convertArgs_silent_iff (parameters_known b) typed sameSpans arity.symm
  exact ⟨silent, Nat.le_trans few (Builtin.parameters_length_le b)⟩

/-- Where there are functions that take so many arguments, the call goes to the cheapest one; if
none takes them all, a single one reports the argument that it does not take. -/
theorem candidates_judges {overloads : List Function}
    (builtin : ∀ f ∈ overloads, ∃ b : Builtin, f = b.function) {f : Function} {rest : List Function}
    (candidates : overloads.filter (fun g => g.parameters.length = args.length) = f :: rest) :
    Judges (∃ e ∈ args, e.isUnknown = true) (applyOverloads overloads callee spans args span) := by
  have none := any_isUnknown_eq_false known
  have passes : ∀ g ∈ f :: rest, ∃ b : Builtin,
      g = b.function ∧ b.function.parameters.length = args.length := by
    intro g member
    rw [← candidates, List.mem_filter] at member
    obtain ⟨b, rfl⟩ := builtin g member.1
    exact ⟨b, rfl, of_decide_eq_true member.2⟩
  cases best : bestOverload? (f :: rest) args with
  | some g =>
      obtain ⟨b, rfl, arity⟩ := passes g (mem_of_bestOverload? best)
      have clean := (convertArgs_builtin known sameSpans b arity).1.2 (bestOverload?_cost best)
      have result : b.function.result ≠ .unknown := result_known b
      refine .of_known known (isUnknown_eq_false.2 ?_) ?_
      · simpa [applyOverloads, none, candidates, best, Expr.ty] using result
      · simpa [applyOverloads, none, candidates, best] using clean
  | none =>
      cases rest with
      | nil =>
          obtain ⟨b, rfl, arity⟩ := passes f List.mem_cons_self
          obtain ⟨silent, one⟩ := convertArgs_builtin known sameSpans b arity
          have reported : (convertArgs spans args b.function.parameters).problems ≠ [] := by
            intro clean
            exact bestOverload?_singleton (silent.1 clean) best
          refine .of_report known ?_ ?_ ?_
          · simp [applyOverloads, none, candidates, best, isUnknown_error]
          · simpa [applyOverloads, none, candidates, best] using reported
          · simpa [applyOverloads, none, candidates, best] using one
      | cons g rest =>
          refine .of_report known ?_ ?_ ?_ <;>
            simp [applyOverloads, none, candidates, best, Checked.report, isUnknown_error]

end

theorem applyOverloads_judges {callee : Syntax.Name} (any : functionsOf callee.text ≠ [])
    {spans : List Span} {args : List Expr} (sameSpans : spans.length = args.length) (span : Span) :
    Judges (∃ e ∈ args, e.isUnknown = true)
      (applyOverloads (functionsOf callee.text) callee spans args span) := by
  by_cases unknown : ∃ e ∈ args, e.isUnknown = true
  · have some : args.any Expr.isUnknown = true := List.any_eq_true.2 unknown
    refine .of_silent unknown ?_ ?_ <;> simp [applyOverloads, some, isUnknown_error]
  have builtin : ∀ f ∈ functionsOf callee.text, ∃ b : Builtin, f = b.function := by
    intro f member
    obtain ⟨b, -, same⟩ := mem_functionsOf.1 member
    exact ⟨b, same⟩
  cases candidates : (functionsOf callee.text).filter (fun f => f.parameters.length = args.length) with
  | nil =>
      obtain ⟨f, rest, overloads⟩ := List.exists_cons_of_ne_nil any
      rw [overloads] at candidates builtin ⊢
      obtain ⟨b, rfl⟩ := builtin f List.mem_cons_self
      exact wrongArity_judges unknown sameSpans (Builtin.parameters_length_le b) candidates
  | cons f rest => exact candidates_judges unknown sameSpans builtin candidates

theorem functionsOf_ne_nil_iff {name : String} :
    functionsOf name ≠ [] ↔ Builtin.all.any (·.name = name) = true := by
  simp [functionsOf, List.filter_eq_nil_iff]

theorem isCallable_cast {callee : Syntax.Name} {t : Ty}
    (named : Ty.ofName? callee.text = some t) : callee.isCallable 1 = true := by
  simp [Syntax.Name.isCallable, named]

theorem isCallable_plain {callee : Syntax.Name} {arity : Nat}
    (plain : ∀ t, Ty.ofName? callee.text = some t → arity ≠ 1) :
    callee.isCallable arity = true ↔ functionsOf callee.text ≠ [] := by
  rw [functionsOf_ne_nil_iff]
  unfold Syntax.Name.isCallable
  cases named : Ty.ofName? callee.text with
  | none => simp
  | some t => simp [plain t named]

/-! ## Trees -/

namespace Operand

variable {scope : Scope}

/-- Why a node is unknown without a report of its own. -/
def Reason (scope : Scope) (n : Operand) : Prop :=
  (∃ name, n.expr = .name name ∧ name.Blank scope) ∨
    ∃ part ∈ n.parts, (part.bind scope).value.isUnknown = true

theorem bind_value (e : Syntax.Expr) : (Operand.mk e false).bind scope = resolveValue scope e := rfl

theorem bind_void (e : Syntax.Expr) : (Operand.mk e true).bind scope = resolve scope e := rfl

/-- The parts of an expression are resolved first; the last step is silent if one is unknown. -/
theorem resolve_splits (functions : ∀ name, scope.overloads name = functionsOf name)
    {n : Operand} (plain : n.expr.isPlain = true) :
    ∃ c, resolve scope n.expr = ⟨c.value, n.below scope ++ c.problems⟩ ∧
      Judges (n.Reason scope) c := by
  obtain ⟨e, mayBeVoid⟩ := n
  cases e with
  | literal span value =>
      refine ⟨resolve scope (.literal span value), by rw [resolve]; rfl, ?_⟩
      rw [resolve]
      refine .of_known ?_ ?_ rfl
      · simp [Reason, parts, partsOf]
      · cases value <;> rfl
  | name name =>
      refine ⟨resolveName scope name, by rw [resolve]; rfl, ?_⟩
      refine (resolveName_judges scope name).congr ?_
      simp [Reason, parts, partsOf]
  | unary span op opSpan operand =>
      simp only [Syntax.Expr.isPlain, Bool.and_eq_true, Bool.not_eq_true'] at plain
      refine ⟨applyUnary op opSpan (resolveValue scope operand).value operand.span, ?_, ?_⟩
      · rw [resolve]
        simp [below, parts, partsOf, bind_value, resolveValue, Bind.bind]
      · refine (applyUnary_judges plain.1 _ _ _).congr ?_
        simp [Reason, parts, partsOf, bind_value]
  | binary span left op opSpan right =>
      refine ⟨applyBinary (resolveValue scope left).value op opSpan
        (resolveValue scope right).value, ?_, ?_⟩
      · rw [resolve]
        simp [below, parts, partsOf, bind_value, resolveValue, Bind.bind]
      · refine (applyBinary_judges _ _ _ _).congr ?_
        simp [Reason, parts, partsOf, bind_value]
  | assign span target value => cases plain
  | call span callee args =>
      rcases call_cases callee args with ⟨t, arg, named, rfl⟩ | other
      · refine ⟨convertTo (resolveValue scope arg).value arg.span t true, ?_, ?_⟩
        · rw [resolve_cast named]
          simp [below, parts, partsOf, isCallable_cast named, bind_value, Bind.bind]
        · refine (cast_judges (ofName?_known named) _ _).congr ?_
          simp [Reason, parts, partsOf, isCallable_cast named, bind_value]
      · by_cases any : functionsOf callee.text = []
        · have uncallable : callee.isCallable args.length = false := by
            rw [← Bool.not_eq_true, isCallable_plain other]
            simp [any]
          refine ⟨_, ?_, .of_report (c := ⟨.error, (reportUnknown scope callee
            (.unknownFunction callee.text)).problems⟩) ?_ isUnknown_error ?_ ?_⟩
          · rw [resolve_uncallable functions other any]
            simp [below, parts, partsOf, uncallable, Bind.bind]
          · simp [Reason, parts, partsOf, uncallable]
          · simp [reportUnknown, Checked.reportWith]
          · simp [reportUnknown, Checked.reportWith]
        · have callable : callee.isCallable args.length = true := (isCallable_plain other).2 any
          refine ⟨applyOverloads (functionsOf callee.text) callee (args.map Syntax.Expr.span)
            (args.map fun e => (resolveValue scope e).value) span, ?_, ?_⟩
          · rw [resolve_call functions other any, resolveArgs_eq]
            simp [below, parts, partsOf, callable, List.flatMap_map, bind_value, Bind.bind]
          · refine (applyOverloads_judges any (by simp) span).congr ?_
            simp [Reason, parts, partsOf, callable, bind_value]
  | paren span inner =>
      refine ⟨⟨(resolve scope inner).value, []⟩, ?_, ?_⟩
      · rw [resolve]
        simp [below, parts, partsOf, bind_void]
      · have reason : (Operand.mk (.paren span inner) mayBeVoid).Reason scope ↔
            (resolve scope inner).value.isUnknown = true := by
          simp [Reason, parts, partsOf, bind_void]
        constructor
        · intro there
          exact ⟨reason.1 there, rfl⟩
        · intro absent
          simp [mt reason.2 absent]

/-- The problems of a node are those of its parts, and after them those of its own step. -/
theorem bind_splits (functions : ∀ name, scope.overloads name = functionsOf name)
    {n : Operand} (plain : n.expr.isPlain = true) :
    ∃ c, n.bind scope = ⟨c.value, n.below scope ++ c.problems⟩ ∧ Judges (n.Reason scope) c := by
  obtain ⟨c, splits, judges⟩ := resolve_splits functions plain
  unfold bind
  split
  · exact ⟨c, splits, judges⟩
  · refine ⟨c >>= requireValue n.expr.span, ?_, requireValue_judges judges _⟩
    simp [resolveValue, splits, Bind.bind]

theorem problems_eq (functions : ∀ name, scope.overloads name = functionsOf name)
    {n : Operand} (plain : n.expr.isPlain = true) :
    (n.bind scope).problems = n.below scope ++ n.own scope := by
  obtain ⟨c, splits, -⟩ := bind_splits functions plain
  simp [own, splits]

theorem judges_own (functions : ∀ name, scope.overloads name = functionsOf name)
    {n : Operand} (plain : n.expr.isPlain = true) :
    Judges (n.Reason scope) ⟨(n.bind scope).value, n.own scope⟩ := by
  obtain ⟨c, splits, judges⟩ := bind_splits functions plain
  simpa [own, splits] using judges

/-! ### Parts -/

theorem plain_part {n part : Operand} (plain : n.expr.isPlain = true) (member : part ∈ n.parts) :
    part.expr.isPlain = true := by
  obtain ⟨e, mayBeVoid⟩ := n
  cases e with
  | literal span value => cases member
  | name name => cases member
  | unary span op opSpan operand =>
      simp only [Syntax.Expr.isPlain, Bool.and_eq_true] at plain
      simp only [parts, partsOf, List.mem_singleton] at member
      simpa [member] using plain.2
  | binary span left op opSpan right =>
      simp only [Syntax.Expr.isPlain, Bool.and_eq_true] at plain
      simp only [parts, partsOf, List.mem_cons, List.not_mem_nil, or_false] at member
      rcases member with rfl | rfl
      · exact plain.1
      · exact plain.2
  | assign span target value => cases plain
  | call span callee args =>
      have each := Syntax.Expr.arePlain_iff.1 plain
      simp only [parts, partsOf] at member
      split at member
      · obtain ⟨arg, listed, rfl⟩ := List.mem_map.1 member
        exact each arg listed
      · cases member
  | paren span inner =>
      simp only [parts, partsOf, List.mem_singleton] at member
      simpa [member, Syntax.Expr.isPlain] using plain

/-- What holds of a node whenever it holds of its parts holds of every node. -/
theorem induction {motive : Operand → Prop}
    (node : ∀ n : Operand, (∀ part ∈ n.parts, motive part) → motive n) (n : Operand) : motive n := by
  obtain ⟨e, mayBeVoid⟩ := n
  induction e using Syntax.Expr.induction generalizing mayBeVoid with
  | literal span value => exact node _ (List.forall_mem_nil _)
  | name name => exact node _ (List.forall_mem_nil _)
  | unary span op opSpan operand ih => exact node _ (by simp [parts, partsOf, ih])
  | binary span left op opSpan right ihLeft ihRight =>
      exact node _ (by simp [parts, partsOf, ihLeft, ihRight])
  | assign span target value ih => exact node _ (by simp [parts, partsOf, ih])
  | call span callee args ih =>
      refine node _ ?_
      intro part member
      simp only [parts, partsOf] at member
      split at member
      · obtain ⟨arg, listed, rfl⟩ := List.mem_map.1 member
        exact ih arg listed false
      · cases member
  | paren span inner ih => exact node _ (by simp [parts, partsOf, ih])

/-- The names that are looked up in a node are itself and those of its parts. -/
theorem mem_uses {n : Operand} (plain : n.expr.isPlain = true) {name : Syntax.Name} :
    name ∈ n.expr.uses ↔ n.expr = .name name ∨ ∃ part ∈ n.parts, name ∈ part.expr.uses := by
  obtain ⟨e, mayBeVoid⟩ := n
  cases e with
  | assign span target value => cases plain
  | call span callee args =>
      simp only [Syntax.Expr.uses, parts, partsOf]
      split
      · simp [Syntax.Expr.usesIn_eq]
      · simp
  | name n => simp [Syntax.Expr.uses, parts, partsOf, eq_comm]
  | _ => simp [Syntax.Expr.uses, parts, partsOf]

theorem leafCount_parts (n : Operand) :
    Syntax.Expr.leafCountOf (n.parts.map Operand.expr) ≤ n.expr.leafCount := by
  obtain ⟨e, mayBeVoid⟩ := n
  cases e with
  | call span callee args =>
      simp only [parts, partsOf]
      split
      · by_cases any : args = []
        · simp [any, Syntax.Expr.leafCountOf]
        · rw [Syntax.Expr.leafCount_call _ _ any]
          simp [Function.comp_def]
      · simp [Syntax.Expr.leafCountOf]
  | _ => simp [parts, partsOf, Syntax.Expr.leafCount, Syntax.Expr.leafCountOf]

/-! ### Whole trees -/

/-- A node is unknown exactly if something in it was reported or passed over in silence. -/
theorem unknown_iff (functions : ∀ name, scope.overloads name = functionsOf name)
    (n : Operand) (plain : n.expr.isPlain = true) :
    (n.bind scope).value.isUnknown = true ↔
      (n.bind scope).problems ≠ [] ∨ ∃ name ∈ n.expr.uses, name.Blank scope := by
  induction n using Operand.induction with
  | node n ih =>
      have parts : (∃ part ∈ n.parts, (part.bind scope).value.isUnknown = true) ↔
          n.below scope ≠ [] ∨
            ∃ part ∈ n.parts, ∃ name ∈ part.expr.uses, name.Blank scope := by
        have each : ∀ part ∈ n.parts, ((part.bind scope).value.isUnknown = true ↔
            (part.bind scope).problems ≠ [] ∨ ∃ name ∈ part.expr.uses, name.Blank scope) :=
          fun part member => ih part member (plain_part plain member)
        constructor
        · rintro ⟨part, member, unknown⟩
          rcases (each part member).1 unknown with some | blank
          · refine .inl fun none => some ?_
            exact List.flatMap_eq_nil_iff.1 none part member
          · exact .inr ⟨part, member, blank⟩
        · rintro (some | ⟨part, member, blank⟩)
          · obtain ⟨p, listed⟩ := List.exists_mem_of_ne_nil _ some
            obtain ⟨part, member, there⟩ := List.mem_flatMap.1 listed
            exact ⟨part, member, (each part member).2 (.inl (List.ne_nil_of_mem there))⟩
          · exact ⟨part, member, (each part member).2 (.inr blank)⟩
      have uses : (∃ name ∈ n.expr.uses, name.Blank scope) ↔
          (∃ name, n.expr = .name name ∧ name.Blank scope) ∨
            ∃ part ∈ n.parts, ∃ name ∈ part.expr.uses, name.Blank scope := by
        simp only [mem_uses plain]
        constructor
        · rintro ⟨name, itself | ⟨part, member, there⟩, blank⟩
          · exact .inl ⟨name, itself, blank⟩
          · exact .inr ⟨part, member, name, there, blank⟩
        · rintro (⟨name, itself, blank⟩ | ⟨part, member, name, there, blank⟩)
          · exact ⟨name, .inl itself, blank⟩
          · exact ⟨name, .inr ⟨part, member, there⟩, blank⟩
      have step := (judges_own functions plain).unknown_iff
      dsimp only at step
      rw [step, problems_eq functions plain, uses, Reason, parts, ne_eq (_ ++ _),
        List.append_eq_nil_iff, not_and_or]
      constructor
      · rintro ((blank | some | blank) | some)
        · exact .inr (.inl blank)
        · exact .inl (.inl some)
        · exact .inr (.inr blank)
        · exact .inl (.inr some)
      · rintro ((some | some) | blank | blank)
        · exact .inl (.inr (.inl some))
        · exact .inr some
        · exact .inl (.inl blank)
        · exact .inl (.inr (.inr blank))

/-- Nothing is reported below a node that is known. -/
theorem problems_of_known (functions : ∀ name, scope.overloads name = functionsOf name)
    {n : Operand} (plain : n.expr.isPlain = true)
    (known : ¬ (n.bind scope).value.isUnknown = true) : (n.bind scope).problems = [] := by
  by_contra some
  exact known ((unknown_iff functions n plain).2 (.inl some))

/-- A node reports something only if nothing is reported below it. -/
theorem below_of_own (functions : ∀ name, scope.overloads name = functionsOf name)
    {n : Operand} (plain : n.expr.isPlain = true) (reports : n.own scope ≠ []) :
    n.below scope = [] := by
  have absent : ¬ n.Reason scope := fun there =>
    reports ((judges_own functions plain).silent there).2
  refine List.flatMap_eq_nil_iff.2 fun part member => ?_
  refine problems_of_known functions (plain_part plain member) fun unknown => ?_
  exact absent (.inr ⟨part, member, unknown⟩)

/-- Down a path from a node without problems, nothing is reported. -/
theorem silent_below (functions : ∀ name, scope.overloads name = functionsOf name)
    {n : Operand} {path : List Operand} (down : IsPath (n :: path))
    (plain : n.expr.isPlain = true) (none : (n.bind scope).problems = []) :
    ∀ m ∈ n :: path, m.own scope = [] := by
  have split := none
  rw [problems_eq functions plain, List.append_eq_nil_iff] at split
  induction path generalizing n with
  | nil => simpa using split.2
  | cons part path ih =>
      rw [IsPath, List.isChain_cons_cons] at down
      have here := plain_part plain down.1
      have nothing : (part.bind scope).problems = [] :=
        List.flatMap_eq_nil_iff.1 split.1 part down.1
      have split' := nothing
      rw [problems_eq functions here, List.append_eq_nil_iff] at split'
      rw [List.forall_mem_cons]
      exact ⟨split.2, ih down.2 here nothing split'⟩

theorem plain_path {n : Operand} {path : List Operand} (down : IsPath (n :: path))
    (plain : n.expr.isPlain = true) : ∀ m ∈ n :: path, m.expr.isPlain = true := by
  induction path generalizing n with
  | nil => simpa using plain
  | cons part path ih =>
      rw [IsPath, List.isChain_cons_cons] at down
      rw [List.forall_mem_cons]
      exact ⟨plain, ih down.2 (plain_part plain down.1)⟩

/-- On a path down a tree one node at most reports something. -/
theorem countP_own_le (functions : ∀ name, scope.overloads name = functionsOf name)
    {n : Operand} {path : List Operand} (down : IsPath (n :: path))
    (plain : n.expr.isPlain = true) :
    (n :: path).countP (fun m => !(m.own scope).isEmpty) ≤ 1 := by
  induction path generalizing n with
  | nil =>
      rw [List.countP_singleton]
      split <;> simp
  | cons part path ih =>
      have down' := down
      rw [IsPath, List.isChain_cons_cons] at down'
      have here := plain_part plain down'.1
      by_cases reports : n.own scope = []
      · simpa [List.countP_cons, reports] using ih down'.2 here
      · have none := List.flatMap_eq_nil_iff.1 (below_of_own functions plain reports) part down'.1
        have silent := silent_below functions down'.2 here none
        have rest : (part :: path).countP (fun m => !(m.own scope).isEmpty) = 0 := by
          rw [List.countP_eq_zero]
          intro m member
          simp [silent m member]
        rw [List.countP_cons, rest]
        split <;> simp

theorem length_below_le {parts : List Operand}
    (each : ∀ part ∈ parts, (part.bind scope).problems.length ≤ part.expr.leafCount) :
    (parts.flatMap fun part => (part.bind scope).problems).length ≤
      Syntax.Expr.leafCountOf (parts.map Operand.expr) := by
  induction parts with
  | nil => simp
  | cons part parts ih =>
      rw [List.forall_mem_cons] at each
      have := ih each.2
      simp only [List.flatMap_cons, List.length_append, List.map_cons, Syntax.Expr.leafCountOf]
      omega

/-- There are no more problems than leaves. -/
theorem length_problems_le (functions : ∀ name, scope.overloads name = functionsOf name)
    (n : Operand) (plain : n.expr.isPlain = true) :
    (n.bind scope).problems.length ≤ n.expr.leafCount := by
  induction n using Operand.induction with
  | node n ih =>
      rw [problems_eq functions plain, List.length_append]
      by_cases reports : n.own scope = []
      · have parts : (n.below scope).length ≤ Syntax.Expr.leafCountOf (n.parts.map Operand.expr) :=
          length_below_le fun part member => ih part member (plain_part plain member)
        have := leafCount_parts n
        simp only [reports, List.length_nil]
        omega
      · have one := (judges_own functions plain).length_le
        have := n.expr.leafCount_pos
        simp only [below_of_own functions plain reports, List.length_nil]
        dsimp only at one
        omega

end Operand

/-- An expression that changes no variable, resolved among the builtins, is unknown exactly if
something in it was reported or has no meaning without a report.  A node with an unknown part adds
nothing to the problems of its parts; so one node at most on every path down the tree reports
something, and there are no more problems than leaves. -/
theorem resolve_reports_once {scope : Scope}
    (functions : ∀ name, scope.overloads name = functionsOf name) (e : Syntax.Expr)
    (plain : e.isPlain = true) (mayBeVoid : Bool) :
    (((Operand.mk e mayBeVoid).bind scope).value.isUnknown = true ↔
        ((Operand.mk e mayBeVoid).bind scope).problems ≠ [] ∨
          ∃ name ∈ e.uses, name.Blank scope) ∧
      (∀ path, Operand.IsPath (⟨e, mayBeVoid⟩ :: path) →
        (∀ n ∈ ⟨e, mayBeVoid⟩ :: path,
          (n.bind scope).problems = n.below scope ++ n.own scope ∧
            ((∃ part ∈ n.parts, (part.bind scope).value.isUnknown = true) → n.own scope = [])) ∧
          (⟨e, mayBeVoid⟩ :: path).countP (fun n => !(n.own scope).isEmpty) ≤ 1) ∧
      ((Operand.mk e mayBeVoid).bind scope).problems.length ≤ e.leafCount := by
  refine ⟨Operand.unknown_iff functions _ plain, ?_, Operand.length_problems_le functions _ plain⟩
  intro path down
  refine ⟨fun n member => ?_, Operand.countP_own_le functions down plain⟩
  have here := Operand.plain_path down plain n member
  refine ⟨Operand.problems_eq functions here, fun unknown => ?_⟩
  exact ((Operand.judges_own functions here).silent (.inr unknown)).2

/-- The scope of a program after one that declared `q` with a value that has no meaning. -/
def unknownScope : Scope :=
  (scopeAfter [⟨[⟨0, "q", .unknown, false, some ⟨4, 5⟩⟩], .block [], []⟩]).push

/-- The name in `-nope + int(print(q))` that is not declared. -/
def nope : Syntax.Expr := .name (.read "nope" ⟨1, 5⟩)

/-- The expression `-nope + int(print(q))`. -/
def brokenSum : Syntax.Expr :=
  .binary ⟨0, 21⟩ (.unary ⟨0, 5⟩ .negate ⟨0, 1⟩ nope) .add ⟨6, 7⟩
    (.call ⟨8, 21⟩ (.read "int" ⟨8, 11⟩)
      [.call ⟨12, 20⟩ (.read "print" ⟨12, 17⟩) [.name (.read "q" ⟨18, 19⟩)]])

/-- The unknown name is the only problem; neither an operator nor the conversion adds another. -/
theorem brokenSum_reports_once :
    (∀ name, unknownScope.overloads name = functionsOf name) ∧ brokenSum.isPlain = true ∧
      (resolveValue unknownScope brokenSum).problems.length = 1 ∧
      (resolveValue unknownScope brokenSum).value.isUnknown = true ∧
      [⟨brokenSum, false⟩, ⟨.unary ⟨0, 5⟩ .negate ⟨0, 1⟩ nope, false⟩,
        ⟨nope, false⟩].countP (fun n => !(Operand.own unknownScope n).isEmpty) ≤ 1 ∧
      1 ≤ brokenSum.leafCount := by
  have functions : ∀ name, unknownScope.overloads name = functionsOf name := fun name =>
    (Scope.overloads_push _ name).trans (overloads_scopeAfter _ name)
  have one : (resolveValue unknownScope brokenSum).problems.length = 1 := by decide +kernel
  obtain ⟨unknown, paths, few⟩ := resolve_reports_once functions brokenSum rfl false
  refine ⟨functions, rfl, one, unknown.2 (.inl ?_), (paths _ ?_).2, by rw [← one]; exact few⟩
  · exact List.ne_nil_of_length_pos (one ▸ Nat.one_pos)
  · simp [Operand.IsPath, Operand.parts, partsOf, brokenSum]

end Bound

end ScriptLang
