/-
# ScriptLang.Proofs.Judging -- expressions that resolve are those that have a type

An expression in which no name is missing resolves without a problem exactly if
the rules give it a type, and then what it resolves to has that type
(`resolve_judged`, `resolve_complete`).  Resolving reports once and goes on with
an `error` that later steps are silent about, so a step can only be compared with
its rule where the operands are known; that the rest cannot happen without a
report is what the induction carries along.

What comes out is `Proper`: nothing in it is unresolved, operators have the rules
of their operands' types, and what is assigned has the type of its variable,
which is mutable.
-/
import ScriptLang.Proofs.Resolving
import ScriptLang.Proofs.TypingRules

namespace ScriptLang

set_option autoImplicit false

open Rules (Widens Casts Prefixes Combines Passes PassAll Means Denotes HasType HaveTypes Names)

/-! ## Scopes as contexts -/

/-- What the rules know of a variable. -/
def Variable.entry (v : Variable) : Rules.Entry := ⟨v.name, v.ty, v.mutable⟩

/-- The functions of a name. -/
def functionsOf (name : String) : List Function :=
  (Builtin.all.filter (·.name = name)).map Builtin.function

theorem mem_functionsOf {name : String} {f : Function} :
    f ∈ functionsOf name ↔ ∃ b : Builtin, b.name = name ∧ f = b.function := by
  simp only [functionsOf, List.mem_map, List.mem_filter, decide_eq_true_eq]
  constructor
  · rintro ⟨b, ⟨-, named⟩, rfl⟩
    exact ⟨b, named, rfl⟩
  · rintro ⟨b, named, rfl⟩
    refine ⟨b, ⟨?_, named⟩, rfl⟩
    cases b <;> decide

namespace Scope

/-- The variables of a scope, as the rules list them. -/
def context (s : Scope) : Rules.Context := s.frames.map fun f => f.vars.map Variable.entry

/-- Whether all types in a scope are known and its functions are the built-in ones. -/
structure Ready (s : Scope) : Prop where
  vars : ∀ v ∈ s.vars, v.ty ≠ .unknown
  overloads : ∀ name, s.overloads name = functionsOf name

/-- A block shows its own variables, and those further out whose names it does not have. -/
theorem sees_block {vars : List Variable} {Γ : Rules.Context} {x : Rules.Entry} :
    Rules.Context.Sees (vars.map Variable.entry :: Γ) x ↔
      (∃ v, vars.find? (·.name = x.name) = some v ∧ v.entry = x) ∨
        vars.find? (·.name = x.name) = none ∧ Γ.Sees x := by
  induction vars with
  | nil =>
      constructor
      · rintro (_ | _ | outer)
        exact .inr ⟨rfl, outer⟩
      · rintro (⟨v, found, -⟩ | ⟨-, outer⟩)
        · cases found
        · exact .outward outer
  | cons u us ih =>
      rw [List.find?_cons]
      by_cases same : u.name = x.name
      · simp only [same, decide_true]
        constructor
        · rintro (_ | ⟨other, -⟩)
          · exact .inl ⟨u, rfl, rfl⟩
          · exact absurd same other
        · rintro (⟨v, found, rfl⟩ | ⟨none, -⟩)
          · cases found
            exact .here _ _ _
          · cases none
      · simp only [same, decide_false]
        rw [← ih]
        constructor
        · rintro (_ | ⟨-, later⟩)
          · exact absurd rfl same
          · exact later
        · exact .past same

theorem sees_iff {s : Scope} {x : Rules.Entry} :
    s.context.Sees x ↔ ∃ v, s.find? x.name = some v ∧ v.entry = x := by
  unfold context find?
  induction s.frames with
  | nil =>
      constructor
      · rintro ⟨⟩
      · rintro ⟨v, found, -⟩
        cases found
  | cons f fs ih =>
      rw [List.map_cons, sees_block, List.findSome?_cons, ih]
      unfold Frame.find?
      cases f.vars.find? (·.name = x.name) with
      | some v => simp
      | none => simp

theorem sees_of_find? {s : Scope} {name : String} {v : Variable} (found : s.find? name = some v) :
    v.name = name ∧ s.context.Sees v.entry := by
  obtain ⟨frame, -, here⟩ := List.exists_of_findSome?_eq_some found
  have same := List.find?_some here
  have same : v.name = name := of_decide_eq_true same
  exact ⟨same, sees_iff.2 ⟨v, by rw [← found, ← same]; rfl, rfl⟩⟩

/-- A name can be declared exactly if neither the innermost block nor a function has it. -/
theorem free_iff {s : Scope} (ready : s.Ready) {name : String} :
    s.context.Free name ↔ s.function? name = none ∧ s.inner.find? name = none := by
  have block : (∀ block ∈ s.context.head?, ∀ x ∈ block, x.name ≠ name) ↔
      s.inner.find? name = none := by
    simp [context, frames, Frame.find?, Variable.entry]
  have functions : (∀ b : Builtin, b.name ≠ name) ↔ s.function? name = none := by
    rw [function?, ready.overloads, List.head?_eq_none_iff, List.eq_nil_iff_forall_not_mem]
    simp only [mem_functionsOf]
    constructor
    · rintro free f ⟨b, named, -⟩
      exact free b named
    · intro none b named
      exact none _ ⟨b, named, rfl⟩
  unfold Rules.Context.Free
  rw [block, functions, and_comm]

end Scope

namespace Bound

/-! ## Tables -/

theorem widens_iff {s t : Ty} : Widens s t ↔ (Conversion.between s t).isImplicit = true := by
  constructor
  · rintro (_ | _)
    · simp [Conversion.between, Conversion.isImplicit]
    · rfl
  · intro implicit
    cases s <;> cases t <;> first | exact .refl _ | exact .number | cases implicit

theorem casts_iff {s t : Ty} : Casts s t ↔ Conversion.between s t ≠ .impossible := by
  constructor
  · rintro (widens | listed | listed)
    · have implicit := widens_iff.1 widens
      intro impossible
      rw [impossible] at implicit
      cases implicit
    · cases s <;> revert listed <;> decide
    · cases t <;> revert listed <;> decide
  · intro possible
    cases s <;> cases t
    all_goals first
      | exact .widens (.refl _)
      | exact .widens .number
      | exact .write (by decide)
      | exact .read (by decide)
      | exact absurd rfl possible

theorem prefixes_iff {op : UnaryOp} {t : Ty} :
    Prefixes op t ↔ op.isStep = false ∧ UnaryRule.find? op t = some ⟨op, t, t⟩ := by
  constructor
  · rintro (⟨rfl | rfl⟩ | ⟨rfl | rfl⟩ | _ | _ | _) <;> exact ⟨rfl, by decide⟩
  · rintro ⟨plain, found⟩
    obtain ⟨-, listed⟩ := UnaryRule.of_find? found
    simp only [UnaryRule.operands, List.mem_cons, Prod.mk.injEq, List.not_mem_nil, or_false] at listed
    rcases listed with ⟨rfl, rfl⟩ | ⟨rfl, rfl⟩ | ⟨rfl, rfl⟩ | ⟨rfl, rfl⟩ | ⟨rfl, rfl⟩ | ⟨rfl, rfl⟩ |
      ⟨rfl, rfl⟩ | ⟨rfl, rfl⟩ | ⟨rfl, rfl⟩
    · exact .not
    · exact .identity (.inl rfl)
    · exact .negate (.inl rfl)
    · exact .bitNot
    · exact .factorial
    · cases plain
    · cases plain
    · exact .identity (.inr rfl)
    · exact .negate (.inr rfl)

theorem combines_iff {op : BinaryOp} {l r t : Ty} :
    Combines op l r t ↔ BinaryRule.result? op l r = some t := by
  constructor
  · intro combines
    cases combines with
    | arithmetic listed left right =>
        simp only [List.mem_cons, List.not_mem_nil, or_false] at listed
        rcases left with rfl | rfl <;> rcases right with rfl | rfl <;>
          rcases listed with rfl | rfl | rfl | rfl | rfl <;> rfl
    | remainder => rfl
    | bits listed ty =>
        simp only [List.mem_cons, List.not_mem_nil, or_false] at listed ty
        rcases ty with rfl | rfl <;> rcases listed with rfl | rfl | rfl <;> rfl
    | shift listed =>
        simp only [List.mem_cons, List.not_mem_nil, or_false] at listed
        rcases listed with rfl | rfl <;> rfl
    | logic listed =>
        simp only [List.mem_cons, List.not_mem_nil, or_false] at listed
        rcases listed with rfl | rfl <;> rfl
    | equality listed ty =>
        simp only [Ty.writable, List.mem_cons, List.not_mem_nil, or_false] at listed ty
        rcases ty with rfl | rfl | rfl | rfl <;> rcases listed with rfl | rfl <;> rfl
    | order listed left right =>
        simp only [List.mem_cons, List.not_mem_nil, or_false] at listed
        rcases left with rfl | rfl <;> rcases right with rfl | rfl <;>
          rcases listed with rfl | rfl | rfl | rfl <;> rfl
    | append ty =>
        simp only [Ty.writable, List.mem_cons, List.not_mem_nil, or_false] at ty
        rcases ty with rfl | rfl | rfl | rfl <;> rfl
    | prepend ty =>
        simp only [Ty.writable, List.mem_cons, List.not_mem_nil, or_false] at ty
        rcases ty with rfl | rfl | rfl | rfl <;> rfl
    | repeated => rfl
    | shortened => rfl
  · intro announced
    unfold BinaryRule.result? at announced
    split at announced
    all_goals cases op <;> cases announced
    all_goals first
      | exact .append (by decide)
      | exact .prepend (by decide)
      | exact .repeated
      | exact .shortened
      | exact .remainder
      | exact .bits (by decide) (by decide)
      | exact .shift (by decide)
      | exact .logic (by decide)
      | exact .equality (by decide) (by decide)
      | exact .order (by decide) (by first | exact .inl rfl | exact .inr rfl)
          (by first | exact .inl rfl | exact .inr rfl)
      | exact .arithmetic (by decide) (by first | exact .inl rfl | exact .inr rfl)
          (by first | exact .inl rfl | exact .inr rfl)

theorem names_iff {name : Syntax.Name} {t : Ty} :
    Names name t ↔ Ty.ofName? name.text = some t := by
  unfold Names Ty.ofName?
  constructor
  · rintro ⟨listed, same⟩
    rw [← same]
    cases t <;> revert listed <;> decide
  · intro found
    have same := List.find?_some found
    exact ⟨List.mem_of_find?_eq_some found, of_decide_eq_true same⟩

/-! ## Proper expressions -/

mutual

/-- Whether nothing in an expression is unresolved, operators have the rules of their operands'
types, and what is assigned has the type of its variable, which is mutable. -/
def Expr.Proper : Expr → Prop
  | .literal _ => True
  | .unary rule operand => operand.Proper ∧ UnaryRule.find? rule.op operand.ty = some rule
  | .binary left rule right =>
      left.Proper ∧ right.Proper ∧ BinaryRule.find? rule.op left.ty right.ty = some rule
  | .var v => v.ty ≠ .unknown
  | .assign v value => v.mutable = true ∧ v.ty ≠ .unknown ∧ value.Proper ∧ value.ty = v.ty
  | .call f args => (∃ b : Builtin, f = b.function) ∧ Expr.ProperAll args
  | .convert ty e => ty ≠ .unknown ∧ e.Proper
  | .error => False

def Expr.ProperAll : List Expr → Prop
  | [] => True
  | e :: es => e.Proper ∧ Expr.ProperAll es

end

theorem Expr.properAll_iff {args : List Expr} : Expr.ProperAll args ↔ ∀ e ∈ args, e.Proper := by
  induction args with
  | nil => simp [Expr.ProperAll]
  | cons e es ih => simp [Expr.ProperAll, ih]

/-- A proper expression has a type that is known. -/
theorem Expr.Proper.known {e : Expr} (proper : e.Proper) : e.ty ≠ .unknown := by
  induction e using Expr.induction with
  | literal value => cases value <;> simp [Expr.ty, Value.ty]
  | unary rule operand ih =>
      obtain ⟨same, -⟩ := UnaryRule.of_find? proper.2
      show rule.result ≠ .unknown
      rw [same]
      exact ih proper.1
  | binary left rule right ihLeft ihRight =>
      obtain ⟨result, announced, same⟩ := Option.map_eq_some_iff.1 proper.2.2
      show rule.result ≠ .unknown
      rw [← same]
      exact result?_ne_unknown announced
  | var v => exact proper
  | assign v value ih => exact ih proper.2.2.1
  | call f args ih =>
      obtain ⟨⟨b, rfl⟩, -⟩ := proper
      exact result_known b
  | convert ty e ih => exact proper.1
  | error => exact proper.elim

theorem Expr.Proper.isUnknown {e : Expr} (proper : e.Proper) : e.isUnknown = false :=
  decide_eq_false proper.known

theorem Expr.any_isUnknown {args : List Expr} (proper : ∀ e ∈ args, e.Proper) :
    args.any Expr.isUnknown = false := by
  rw [List.any_eq_false]
  intro e member
  simp [(proper e member).isUnknown]

/-- Whether an expression is proper and has a type. -/
def Expr.Gives (e : Expr) (ty : Ty) : Prop := e.Proper ∧ e.ty = ty

/-- What the rules and the resolved form of an expression have to do with each other. -/
structure Judged (Γ : Rules.Context) (e : Syntax.Expr) (bound : Expr) : Prop where
  typed : HasType Γ e bound.ty
  proper : bound.Proper
  denotes : ∀ v, bound = .var v → Denotes Γ e v.entry

/-! ## Steps -/

theorem convertTo_clean_iff {e : Expr} {span : Span} {ty : Ty} {cast : Bool}
    (known : e.ty ≠ .unknown) (tyKnown : ty ≠ .unknown) :
    (convertTo e span ty cast).problems = [] ↔
      Conversion.between e.ty ty ≠ .impossible ∧
        ((Conversion.between e.ty ty).isImplicit = true ∨ cast = true) := by
  refine ⟨convertTo_clean known tyKnown, ?_⟩
  rintro ⟨possible, implicit | rfl⟩
  · unfold convertTo
    simp [possible, implicit]
  · unfold convertTo
    simp [possible]

/-- Where no cast is asked for, what passes is what widens. -/
theorem convertTo_clean_iff_widens {e : Expr} (proper : e.Proper) {span : Span} {ty : Ty}
    (tyKnown : ty ≠ .unknown) : (convertTo e span ty false).problems = [] ↔ Widens e.ty ty := by
  rw [convertTo_clean_iff proper.known tyKnown, widens_iff]
  constructor
  · rintro ⟨-, implicit | asked⟩
    · exact implicit
    · cases asked
  · intro implicit
    refine ⟨fun impossible => ?_, .inl implicit⟩
    rw [impossible] at implicit
    cases implicit

theorem convertTo_clean_iff_casts {e : Expr} (proper : e.Proper) {span : Span} {ty : Ty}
    (tyKnown : ty ≠ .unknown) : (convertTo e span ty true).problems = [] ↔ Casts e.ty ty := by
  rw [convertTo_clean_iff proper.known tyKnown, casts_iff]
  exact ⟨fun clean => clean.1, fun possible => ⟨possible, .inr rfl⟩⟩

theorem convertTo_gives {e : Expr} (proper : e.Proper) {span : Span} {ty : Ty} {cast : Bool}
    (tyKnown : ty ≠ .unknown) (clean : (convertTo e span ty cast).problems = []) :
    (convertTo e span ty cast).value.Gives ty := by
  obtain ⟨possible, -⟩ := (convertTo_clean_iff proper.known tyKnown).1 clean
  rw [convertTo_value possible]
  split
  · rename_i identity
    exact ⟨proper, Conversion.eq_of_identity identity⟩
  · exact ⟨⟨tyKnown, proper⟩, rfl⟩

/-- A conversion gives a variable only if it was one, and had the type already. -/
theorem convertTo_eq_var {e : Expr} {span : Span} {ty : Ty} {cast : Bool}
    (possible : Conversion.between e.ty ty ≠ .impossible) {v : Variable}
    (same : (convertTo e span ty cast).value = .var v) : e = .var v ∧ v.ty = ty := by
  rw [convertTo_value possible] at same
  split at same
  · rename_i identity
    subst same
    exact ⟨rfl, Conversion.eq_of_identity identity⟩
  · cases same

theorem convertTo_self {e : Expr} {span : Span} {cast : Bool} :
    convertTo e span e.ty cast = ⟨e, []⟩ := by
  unfold convertTo
  simp [Conversion.between, Conversion.isImplicit]
  rfl

theorem resolveName_eq {scope : Scope} {name : Syntax.Name} (here : name.isMissing = false)
    {v : Variable} (found : scope.find? name.text = some v) :
    resolveName scope name = ⟨.var v, []⟩ := by
  unfold resolveName
  simp only [here, found, Bool.false_eq_true, if_false]
  rfl

theorem resolveName_clean {scope : Scope} {name : Syntax.Name} (here : name.isMissing = false)
    (clean : (resolveName scope name).problems = []) : ∃ v, scope.find? name.text = some v := by
  cases found : scope.find? name.text with
  | some v => exact ⟨v, rfl⟩
  | none =>
      unfold resolveName at clean
      simp [here, found, reportUnknown, Checked.reportWith] at clean

theorem resolveName_judged {scope : Scope} (ready : scope.Ready) {name : Syntax.Name}
    (here : name.isMissing = false) (clean : (resolveName scope name).problems = []) :
    Judged scope.context (.name name) (resolveName scope name).value := by
  obtain ⟨v, found⟩ := resolveName_clean here clean
  obtain ⟨same, sees⟩ := Scope.sees_of_find? found
  rw [resolveName_eq here found]
  refine ⟨.name sees same, ready.vars v (Scope.mem_vars_of_find? found), ?_⟩
  rintro u ⟨⟩
  exact .name sees same

theorem mem_steps_iff {op : UnaryOp} :
    op ∈ [UnaryOp.increment, .decrement] ↔ op.isStep = true := by
  cases op <;> decide

/-- The binary operator that a stepping operator stands for. -/
def stepOp : UnaryOp → BinaryOp
  | .decrement => .sub
  | _ => .add

/-- The assignment that a stepping operator stands for. -/
def stepExpr (op : UnaryOp) (v : Variable) : Expr :=
  .assign v (.binary (.var v) ⟨stepOp op, .int, .int, .int⟩ (.literal (.int 1)))

theorem stepExpr_gives {op : UnaryOp} {v : Variable} (int : v.ty = .int)
    (mutable : v.mutable = true) : (stepExpr op v).Gives .int := by
  have known : v.ty ≠ .unknown := by
    rw [int]
    decide
  have rule : BinaryRule.find? (stepOp op) v.ty .int = some ⟨stepOp op, .int, .int, .int⟩ := by
    rw [int]
    cases op <;> rfl
  exact ⟨⟨mutable, known, ⟨known, trivial, rule⟩, int.symm⟩, rfl⟩

theorem stepVariable_eq {op : UnaryOp} {v : Variable} (mutable : v.mutable = true) {span : Span} :
    stepVariable (stepOp op) (.var v) span = ⟨stepExpr op v, []⟩ := by
  unfold stepVariable
  simp only [mutable, Bool.not_true, Bool.false_eq_true, if_false]
  rfl

theorem stepVariable_clean {op : BinaryOp} {operand : Expr} {span : Span}
    (clean : (stepVariable op operand span).problems = []) :
    ∃ v, operand = .var v ∧ v.mutable = true := by
  cases operand with
  | var v =>
      refine ⟨v, rfl, ?_⟩
      cases mutable : v.mutable with
      | true => rfl
      | false => simp [stepVariable, mutable, Checked.report] at clean
  | _ => simp [stepVariable, Checked.report] at clean

theorem applyUnary_step {op : UnaryOp} (steps : op.isStep = true) {opSpan span : Span}
    {operand : Expr} (int : operand.ty = .int) :
    applyUnary op opSpan operand span = stepVariable (stepOp op) operand span := by
  have known : operand.isUnknown = false := by
    rw [Expr.isUnknown, int]
    rfl
  unfold applyUnary
  rw [known, int]
  cases op with
  | increment => rfl
  | decrement => rfl
  | _ => cases steps

theorem applyUnary_plain {op : UnaryOp} {opSpan span : Span} {operand : Expr}
    (proper : operand.Proper) (prefixes : Prefixes op operand.ty) :
    applyUnary op opSpan operand span = ⟨.unary ⟨op, operand.ty, operand.ty⟩ operand, []⟩ := by
  obtain ⟨plain, found⟩ := prefixes_iff.1 prefixes
  unfold applyUnary
  rw [proper.isUnknown, found]
  cases op with
  | increment => cases plain
  | decrement => cases plain
  | _ => rfl

theorem applyUnary_clean {op : UnaryOp} {opSpan span : Span} {operand : Expr}
    (proper : operand.Proper) (clean : (applyUnary op opSpan operand span).problems = []) :
    UnaryRule.find? op operand.ty = some ⟨op, operand.ty, operand.ty⟩ := by
  unfold applyUnary at clean
  rw [proper.isUnknown] at clean
  cases found : UnaryRule.find? op operand.ty with
  | none => simp [found, Checked.report] at clean
  | some rule => rw [(UnaryRule.of_find? found).1]

theorem applyUnary_judged {Γ : Rules.Context} {span opSpan : Span} {op : UnaryOp}
    {e : Syntax.Expr} {operand : Expr} (judged : Judged Γ e operand)
    (clean : (applyUnary op opSpan operand e.span).problems = []) :
    Judged Γ (.unary span op opSpan e) (applyUnary op opSpan operand e.span).value := by
  have found := applyUnary_clean judged.proper clean
  cases steps : op.isStep with
  | true =>
      have int : operand.ty = .int := by
        obtain ⟨-, listed⟩ := UnaryRule.of_find? found
        rcases mem_steps_iff.2 steps with _ | ⟨_, _ | ⟨_, ⟨⟩⟩⟩ <;>
          simpa [UnaryRule.operands] using listed
      rw [applyUnary_step steps int] at clean ⊢
      obtain ⟨v, rfl, mutable⟩ := stepVariable_clean clean
      rw [stepVariable_eq mutable]
      exact ⟨.step (mem_steps_iff.2 steps) (judged.denotes v rfl) int mutable,
        (stepExpr_gives int mutable).1, by rintro _ ⟨⟩⟩
  | false =>
      have prefixes := prefixes_iff.2 ⟨steps, found⟩
      rw [applyUnary_plain judged.proper prefixes]
      exact ⟨.unary judged.typed prefixes, ⟨judged.proper, found⟩, by rintro _ ⟨⟩⟩

theorem applyBinary_eq {left right : Expr} (properLeft : left.Proper) (properRight : right.Proper)
    {op : BinaryOp} {opSpan : Span} {t : Ty} (combines : Combines op left.ty right.ty t) :
    applyBinary left op opSpan right = ⟨.binary left ⟨op, left.ty, right.ty, t⟩ right, []⟩ := by
  unfold applyBinary BinaryRule.find?
  rw [properLeft.isUnknown, properRight.isUnknown, combines_iff.1 combines]
  rfl

theorem applyBinary_clean {left right : Expr} (properLeft : left.Proper)
    (properRight : right.Proper) {op : BinaryOp} {opSpan : Span}
    (clean : (applyBinary left op opSpan right).problems = []) :
    ∃ t, Combines op left.ty right.ty t := by
  cases announced : BinaryRule.result? op left.ty right.ty with
  | some t => exact ⟨t, combines_iff.2 announced⟩
  | none =>
      unfold applyBinary BinaryRule.find? at clean
      rw [properLeft.isUnknown, properRight.isUnknown, announced] at clean
      simp [Checked.report] at clean

theorem applyBinary_judged {Γ : Rules.Context} {span opSpan : Span} {op : BinaryOp}
    {e₁ e₂ : Syntax.Expr} {left right : Expr} (judgedLeft : Judged Γ e₁ left)
    (judgedRight : Judged Γ e₂ right) (clean : (applyBinary left op opSpan right).problems = []) :
    Judged Γ (.binary span e₁ op opSpan e₂) (applyBinary left op opSpan right).value := by
  obtain ⟨t, combines⟩ := applyBinary_clean judgedLeft.proper judgedRight.proper clean
  rw [applyBinary_eq judgedLeft.proper judgedRight.proper combines]
  have rule : BinaryRule.find? op left.ty right.ty = some ⟨op, left.ty, right.ty, t⟩ := by
    rw [BinaryRule.find?, combines_iff.1 combines]
    rfl
  exact ⟨.binary judgedLeft.typed judgedRight.typed combines,
    ⟨judgedLeft.proper, judgedRight.proper, rule⟩, by rintro _ ⟨⟩⟩

theorem assignTo_eq {scope : Scope} {target : Syntax.Name} (here : target.isMissing = false)
    {v : Variable} (found : scope.find? target.text = some v) (mutable : v.mutable = true)
    {value : Expr} {span : Span} :
    assignTo scope target value span =
      ⟨.assign v (convertTo value span v.ty false).value,
        (convertTo value span v.ty false).problems⟩ := by
  unfold assignTo
  simp only [here, found, mutable, Bool.not_true, Bool.false_eq_true, if_false]
  refine congrArg (Checked.mk _) ?_
  exact List.append_nil _

theorem assignTo_clean {scope : Scope} {target : Syntax.Name} (here : target.isMissing = false)
    {value : Expr} {span : Span} (clean : (assignTo scope target value span).problems = []) :
    ∃ v, scope.find? target.text = some v ∧ v.mutable = true := by
  unfold assignTo at clean
  cases found : scope.find? target.text with
  | none => simp [here, found, reportUnknown, Checked.reportWith] at clean
  | some v =>
      refine ⟨v, rfl, ?_⟩
      cases mutable : v.mutable with
      | true => rfl
      | false => simp [here, found, mutable, Checked.report] at clean

theorem assignTo_judged {scope : Scope} (ready : scope.Ready) {target : Syntax.Name}
    (here : target.isMissing = false) {span : Span} {e : Syntax.Expr} {value : Expr}
    (judged : Judged scope.context e value) (notVoid : value.ty ≠ .void)
    (clean : (assignTo scope target value e.span).problems = []) :
    Judged scope.context (.assign span target e) (assignTo scope target value e.span).value := by
  obtain ⟨v, found, mutable⟩ := assignTo_clean here clean
  rw [assignTo_eq here found mutable] at clean ⊢
  have known := ready.vars v (Scope.mem_vars_of_find? found)
  obtain ⟨same, sees⟩ := Scope.sees_of_find? found
  have widens := (convertTo_clean_iff_widens judged.proper known).1 clean
  obtain ⟨proper, ty⟩ := convertTo_gives judged.proper known clean
  refine ⟨?_, ⟨mutable, known, proper, ty⟩, by rintro _ ⟨⟩⟩
  show HasType _ _ (convertTo value e.span v.ty false).value.ty
  rw [ty]
  exact .assign sees same mutable judged.typed notVoid widens

/-! ## Calls -/

/-- How many conversions a parameter needs to take an argument. -/
def passCost? (p t : Ty) : Option Nat :=
  if p = .any then some 0
  else
    match Conversion.between t p with
    | .identity => some 0
    | .implicit => some 1
    | .explicit | .impossible => none

theorem passCost?_eq_some_iff {p t : Ty} {n : Nat} : passCost? p t = some n ↔ Passes p t n := by
  constructor
  · intro cost
    cases p <;> cases t <;> cases cost <;>
      first | exact .any _ | exact .same _ | exact .widened
  · rintro (_ | _ | _)
    · rfl
    · cases p <;> rfl
    · rfl

theorem callCost?_cons (p : Parameter) (ps : List Parameter) (e : Expr) (es : List Expr) :
    callCost? (p :: ps) (e :: es) =
      (passCost? p.ty e.ty).bind fun n => (callCost? ps es).map (· + n) := by
  rw [callCost?, passCost?]
  by_cases any : p.ty = .any
  · simp [any]
  · rw [if_neg any, if_neg any]
    cases Conversion.between e.ty p.ty <;> simp

theorem callCost?_eq_some_iff {ps : List Parameter} {args : List Expr}
    (same : args.length = ps.length) {n : Nat} :
    callCost? ps args = some n ↔ PassAll (ps.map Parameter.ty) (args.map Expr.ty) n := by
  induction ps generalizing args n with
  | nil =>
      obtain rfl : args = [] := List.length_eq_zero_iff.1 same
      constructor
      · rintro ⟨⟩
        exact .nil
      · rintro ⟨⟩
        rfl
  | cons p ps ih =>
      cases args with
      | nil => cases same
      | cons e es =>
      simp only [List.length_cons, Nat.add_right_cancel_iff] at same
      rw [callCost?_cons, Option.bind_eq_some_iff]
      constructor
      · rintro ⟨n, first, total⟩
        obtain ⟨m, rest, rfl⟩ := Option.map_eq_some_iff.1 total
        exact .cons (passCost?_eq_some_iff.1 first) ((ih same).1 rest)
      · rintro (_ | ⟨first, rest⟩)
        exact ⟨_, passCost?_eq_some_iff.2 first, Option.map_eq_some_iff.2 ⟨_, (ih same).2 rest, rfl⟩⟩

/-- An argument is converted without a problem exactly if the parameter takes it. -/
theorem convertArg_clean_iff {p : Parameter} (known : p.ty ≠ .unknown) {e : Expr}
    (proper : e.Proper) {span : Span} :
    (convertArg span e p).problems = [] ↔ ∃ n, Passes p.ty e.ty n := by
  unfold convertArg
  split
  · rename_i any
    rw [any]
    exact iff_of_true rfl ⟨0, .any _⟩
  · rename_i any
    rw [convertTo_clean_iff_widens proper known]
    generalize e.ty = t at *
    generalize p.ty = u at *
    constructor
    · rintro (_ | _)
      · exact ⟨0, .same _⟩
      · exact ⟨1, .widened⟩
    · rintro ⟨n, _ | _ | _⟩
      · exact absurd rfl any
      · exact .refl _
      · exact .number

theorem convertArg_proper {p : Parameter} (known : p.ty ≠ .unknown) {e : Expr} (proper : e.Proper)
    {span : Span} (clean : (convertArg span e p).problems = []) :
    (convertArg span e p).value.Proper := by
  unfold convertArg at clean ⊢
  split
  · exact proper
  · rename_i any
    rw [if_neg any] at clean
    exact (convertTo_gives proper known clean).1

/-- Arguments are converted without a problem exactly if the parameters take them. -/
theorem convertArgs_clean_iff {ps : List Parameter} (parameters : ∀ p ∈ ps, p.ty ≠ .unknown)
    {spans : List Span} {args : List Expr} (proper : ∀ e ∈ args, e.Proper)
    (sameSpans : spans.length = args.length) (sameArgs : args.length = ps.length) :
    (convertArgs spans args ps).problems = [] ↔
      ∃ n, PassAll (ps.map Parameter.ty) (args.map Expr.ty) n := by
  have each := OneEach.of_length sameSpans sameArgs
  clear sameSpans sameArgs
  induction each with
  | nil => exact iff_of_true rfl ⟨0, .nil⟩
  | cons p span e _ ih =>
      rw [List.forall_mem_cons] at parameters proper
      rw [convertArgs_cons, List.append_eq_nil_iff, convertArg_clean_iff parameters.1 proper.1]
      refine (and_congr_right' (ih parameters.2 proper.2)).trans ?_
      constructor
      · rintro ⟨⟨n, first⟩, m, rest⟩
        exact ⟨_, .cons first rest⟩
      · rintro ⟨_, _ | ⟨first, rest⟩⟩
        exact ⟨⟨_, first⟩, _, rest⟩

theorem convertArgs_proper {ps : List Parameter} (parameters : ∀ p ∈ ps, p.ty ≠ .unknown)
    {spans : List Span} {args : List Expr} (proper : ∀ e ∈ args, e.Proper)
    (sameSpans : spans.length = args.length) (sameArgs : args.length = ps.length)
    (clean : (convertArgs spans args ps).problems = []) :
    ∀ e ∈ (convertArgs spans args ps).value, e.Proper := by
  have each := OneEach.of_length sameSpans sameArgs
  clear sameSpans sameArgs
  induction each with
  | nil => exact List.forall_mem_nil _
  | cons p span e _ ih =>
      rw [List.forall_mem_cons] at parameters proper
      rw [convertArgs_cons, List.append_eq_nil_iff] at clean
      rw [convertArgs_cons, List.forall_mem_cons]
      exact ⟨convertArg_proper parameters.1 proper.1 clean.1,
        ih parameters.2 proper.2 clean.2⟩

theorem foldl_cheaper_ne_none {costed : List (Nat × Function)} {best : Option (Nat × Function)}
    (h : best ≠ none ∨ costed ≠ []) : costed.foldl cheaper best ≠ none := by
  induction costed generalizing best with
  | nil => exact h.resolve_right fun other => other rfl
  | cons next rest ih =>
      refine ih (.inl ?_)
      unfold cheaper
      split
      · exact Option.some_ne_none _
      · split <;> exact Option.some_ne_none _

/-- What is kept is at least as cheap as everything else. -/
theorem foldl_cheaper_le {costed : List (Nat × Function)} {best : Option (Nat × Function)}
    {chosen : Nat × Function} (h : costed.foldl cheaper best = some chosen) :
    (∀ b ∈ best, chosen.1 ≤ b.1) ∧ ∀ c ∈ costed, chosen.1 ≤ c.1 := by
  induction costed generalizing best with
  | nil =>
      refine ⟨?_, List.forall_mem_nil _⟩
      rintro b rfl
      cases h
      exact Nat.le_refl _
  | cons next rest ih =>
      obtain ⟨kept, later⟩ := ih h
      have both : chosen.1 ≤ next.1 ∧ ∀ b ∈ best, chosen.1 ≤ b.1 := by
        cases best with
        | none => exact ⟨kept next rfl, by rintro _ ⟨⟩⟩
        | some b =>
            unfold cheaper at kept
            dsimp only at kept
            split at kept
            · rename_i less
              have le := kept next rfl
              refine ⟨le, ?_⟩
              rintro _ ⟨⟩
              omega
            · rename_i notLess
              have le := kept b rfl
              refine ⟨by omega, ?_⟩
              rintro _ ⟨⟩
              exact le
      exact ⟨both.2, List.forall_mem_cons.2 ⟨both.1, later⟩⟩

theorem mem_costed {candidates : List Function} {args : List Expr} {c : Nat × Function} :
    c ∈ candidates.filterMap (fun f => (callCost? f.parameters args).map fun n => (n, f)) ↔
      c.2 ∈ candidates ∧ callCost? c.2.parameters args = some c.1 := by
  rw [List.mem_filterMap]
  constructor
  · rintro ⟨f, listed, costed⟩
    obtain ⟨n, cost, rfl⟩ := Option.map_eq_some_iff.1 costed
    exact ⟨listed, cost⟩
  · rintro ⟨listed, cost⟩
    exact ⟨c.2, listed, by rw [cost]; rfl⟩

/-- The function that is called takes the arguments with the fewest conversions. -/
theorem bestOverload?_least {candidates : List Function} {args : List Expr} {f : Function}
    (best : bestOverload? candidates args = some f) :
    f ∈ candidates ∧ ∃ n, callCost? f.parameters args = some n ∧
      ∀ g ∈ candidates, ∀ m, callCost? g.parameters args = some m → n ≤ m := by
  obtain ⟨⟨n, g⟩, chosen, rfl⟩ := Option.map_eq_some_iff.1 best
  obtain ⟨listed, cost⟩ := mem_costed.1 ((mem_foldl_cheaper chosen).resolve_left (by rintro ⟨⟩))
  refine ⟨listed, n, cost, fun g member m costs => ?_⟩
  exact (foldl_cheaper_le chosen).2 (m, g) (mem_costed.2 ⟨member, costs⟩)

theorem bestOverload?_ne_none {candidates : List Function} {args : List Expr} {f : Function}
    (listed : f ∈ candidates) {n : Nat} (cost : callCost? f.parameters args = some n) :
    bestOverload? candidates args ≠ none := by
  intro none
  have member := mem_costed.2 (⟨listed, cost⟩ : (n, f).2 ∈ candidates ∧ _)
  exact foldl_cheaper_ne_none (.inr (List.ne_nil_of_mem member)) (Option.map_eq_none_iff.1 none)

/-- No function has the name of a type. -/
theorem ofName?_builtin (b : Builtin) : Ty.ofName? b.name = none := by
  cases b <;> decide

/-- The functions of a name that take so many arguments. -/
def candidatesFor (name : String) (args : List Expr) : List Function :=
  (functionsOf name).filter fun f => f.parameters.length = args.length

theorem mem_candidatesFor {name : String} {args : List Expr} {f : Function} :
    f ∈ candidatesFor name args ↔
      ∃ b : Builtin, b.name = name ∧ args.length = b.parameters.length ∧ f = b.function := by
  rw [candidatesFor, List.mem_filter, mem_functionsOf, decide_eq_true_eq]
  constructor
  · rintro ⟨⟨b, named, rfl⟩, arity⟩
    exact ⟨b, named, arity.symm, rfl⟩
  · rintro ⟨b, named, arity, rfl⟩
    exact ⟨⟨b, named, rfl⟩, arity.symm⟩

/-- Where no function takes so many arguments, each one takes another number of them. -/
theorem length_ne_of_candidates {name : String} {args : List Expr}
    (none : candidatesFor name args = []) {f : Function} (listed : f ∈ functionsOf name) : f.parameters.length ≠ args.length :=
  fun same => List.filter_eq_nil_iff.1 none f listed (decide_eq_true same)

theorem Accepts.arity {b : Builtin} {args : List Expr} {n : Nat}
    (accepts : Rules.Accepts b (args.map Expr.ty) n) : args.length = b.parameters.length := by
  simpa using accepts.length_eq

theorem means_of_best {name : Syntax.Name} {args : List Expr} {f : Function}
    (best : bestOverload? (candidatesFor name.text args) args = some f) :
    ∃ b : Builtin, f = b.function ∧ args.length = b.parameters.length ∧
      Means name (args.map Expr.ty) b := by
  obtain ⟨listed, n, cost, least⟩ := bestOverload?_least best
  obtain ⟨b, named, arity, rfl⟩ := mem_candidatesFor.1 listed
  refine ⟨b, rfl, arity, named, n, (callCost?_eq_some_iff arity).1 cost, ?_⟩
  intro other m named' accepts
  have arity' := Accepts.arity accepts
  exact least other.function (mem_candidatesFor.2 ⟨other, named', arity', rfl⟩) m
    ((callCost?_eq_some_iff arity').2 accepts)

theorem best_of_means {name : Syntax.Name} {args : List Expr} {b : Builtin}
    (means : Means name (args.map Expr.ty) b) :
    bestOverload? (candidatesFor name.text args) args = some b.function := by
  obtain ⟨named, n, accepts, -⟩ := id means
  have arity := Accepts.arity accepts
  have listed := mem_candidatesFor.2 ⟨b, named, arity, rfl⟩
  have cost := (callCost?_eq_some_iff arity).2 accepts
  obtain ⟨f, best⟩ := Option.ne_none_iff_exists'.1 (bestOverload?_ne_none listed cost)
  obtain ⟨b', rfl, -, means'⟩ := means_of_best best
  rw [best, means.unique means']

theorem applyOverloads_eq {callee : Syntax.Name} {spans : List Span} {args : List Expr}
    (known : args.any Expr.isUnknown = false) {span : Span} {f : Function}
    (best : bestOverload? (candidatesFor callee.text args) args = some f) :
    applyOverloads (functionsOf callee.text) callee spans args span =
      ⟨.call f (convertArgs spans args f.parameters).value,
        (convertArgs spans args f.parameters).problems⟩ := by
  unfold applyOverloads
  rw [known]
  simp only [Bool.false_eq_true, if_false]
  rw [← candidatesFor]
  cases candidates : candidatesFor callee.text args with
  | nil =>
      rw [candidates] at best
      cases best
  | cons g rest =>
      rw [candidates] at best
      simp only [best]
      exact congrArg (Checked.mk _) (List.append_nil _)

/-- A call without a problem has found a function. -/
theorem applyOverloads_clean {callee : Syntax.Name} (any : functionsOf callee.text ≠ [])
    {spans : List Span} {args : List Expr} (proper : ∀ e ∈ args, e.Proper)
    (sameSpans : spans.length = args.length) {span : Span}
    (clean : (applyOverloads (functionsOf callee.text) callee spans args span).problems = []) :
    ∃ f, bestOverload? (candidatesFor callee.text args) args = some f := by
  unfold applyOverloads at clean
  rw [Expr.any_isUnknown proper] at clean
  simp only [Bool.false_eq_true, if_false] at clean
  rw [← candidatesFor] at clean
  cases best : bestOverload? (candidatesFor callee.text args) args with
  | some f => exact ⟨f, rfl⟩
  | none =>
      exfalso
      cases candidates : candidatesFor callee.text args with
      | nil =>
          -- no function takes that many arguments, which is reported
          rw [candidates] at clean
          cases functions : functionsOf callee.text with
          | nil => exact any functions
          | cons f rest =>
              rw [functions] at clean
              have listed : f ∈ functionsOf callee.text := by
                rw [functions]
                exact List.mem_cons_self
              have arity : f.parameters.length ≠ spans.length := by
                rw [sameSpans]
                exact length_ne_of_candidates candidates listed
              exact reportArity_ne_nil arity (List.append_eq_nil_iff.1 clean).1
      | cons f rest =>
          have listed : f ∈ candidatesFor callee.text args := by
            rw [candidates]
            exact List.mem_cons_self
          obtain ⟨b, -, arity, rfl⟩ := mem_candidatesFor.1 listed
          rw [candidates] at clean best
          simp only [best] at clean
          cases rest with
          | nil =>
              -- the conversions of the arguments are reported
              have cleanArgs := (List.append_eq_nil_iff.1 clean).1
              obtain ⟨n, passes⟩ :=
                (convertArgs_clean_iff (parameters_known b) proper sameSpans arity).1 cleanArgs
              exact bestOverload?_ne_none List.mem_cons_self
                ((callCost?_eq_some_iff arity).2 passes) best
          | cons g rest => simp [Checked.report] at clean

theorem applyOverloads_complete {callee : Syntax.Name} {spans : List Span} {args : List Expr}
    (proper : ∀ e ∈ args, e.Proper) (sameSpans : spans.length = args.length) {span : Span}
    {b : Builtin} (means : Means callee (args.map Expr.ty) b) :
    (applyOverloads (functionsOf callee.text) callee spans args span).problems = [] ∧
      (applyOverloads (functionsOf callee.text) callee spans args span).value.ty = b.result := by
  rw [applyOverloads_eq (Expr.any_isUnknown proper) (best_of_means means)]
  obtain ⟨-, n, accepts, -⟩ := means
  have arity := Accepts.arity accepts
  exact ⟨(convertArgs_clean_iff (parameters_known b) proper sameSpans arity).2 ⟨n, accepts⟩, rfl⟩

theorem applyOverloads_judged {Γ : Rules.Context} {span : Span} {callee : Syntax.Name}
    {args : List Syntax.Expr} {spans : List Span} {bound : List Expr}
    (types : HaveTypes Γ args (bound.map Expr.ty)) (proper : ∀ e ∈ bound, e.Proper)
    (sameSpans : spans.length = bound.length) (any : functionsOf callee.text ≠ [])
    (clean : (applyOverloads (functionsOf callee.text) callee spans bound span).problems = []) :
    Judged Γ (.call span callee args)
      (applyOverloads (functionsOf callee.text) callee spans bound span).value := by
  obtain ⟨f, best⟩ := applyOverloads_clean any proper sameSpans clean
  obtain ⟨b, rfl, arity, means⟩ := means_of_best best
  rw [applyOverloads_eq (Expr.any_isUnknown proper) best] at clean ⊢
  have properArgs := convertArgs_proper (parameters_known b) proper sameSpans arity clean
  exact ⟨.call types means, ⟨⟨b, rfl⟩, Expr.properAll_iff.2 properArgs⟩, by rintro _ ⟨⟩⟩

/-! ## Expressions -/

/-- A call of a type's name with one argument is a conversion. -/
theorem resolve_call {scope : Scope}
    (functions : ∀ name, scope.overloads name = functionsOf name) {span : Span}
    {callee : Syntax.Name} {args : List Syntax.Expr}
    (plain : ∀ t, Ty.ofName? callee.text = some t → args.length ≠ 1)
    (any : functionsOf callee.text ≠ []) :
    resolve scope (.call span callee args) =
      (resolveArgs scope args >>= fun bound =>
        applyOverloads (functionsOf callee.text) callee (args.map Syntax.Expr.span) bound span) := by
  rw [resolve_plain plain, functions, if_neg any]

/-- The arguments of a call that means nothing are not resolved. -/
theorem resolve_uncallable {scope : Scope}
    (functions : ∀ name, scope.overloads name = functionsOf name) {span : Span}
    {callee : Syntax.Name} {args : List Syntax.Expr}
    (plain : ∀ t, Ty.ofName? callee.text = some t → args.length ≠ 1)
    (none : functionsOf callee.text = []) :
    resolve scope (.call span callee args) =
      (reportUnknown scope callee (.unknownFunction callee.text) >>= fun _ => pure .error) := by
  rw [resolve_plain plain, functions, if_pos none]

/-- A call that resolves without a problem is a call of a function, or a conversion. -/
theorem functionsOf_ne_nil {scope : Scope} (ready : scope.Ready) {span : Span}
    {callee : Syntax.Name} {args : List Syntax.Expr}
    (plain : ∀ t, Ty.ofName? callee.text = some t → args.length ≠ 1)
    (clean : (resolve scope (.call span callee args)).problems = []) :
    functionsOf callee.text ≠ [] := by
  intro none
  rw [resolve_uncallable ready.overloads plain none] at clean
  simp [reportUnknown, Checked.reportWith] at clean

theorem resolveArgs_judged {scope : Scope} {args : List Syntax.Expr}
    (each : ∀ e ∈ args, (resolve scope e).problems = [] →
      Judged scope.context e (resolve scope e).value)
    (clean : (resolveArgs scope args).problems = []) :
    HaveTypes scope.context args ((resolveArgs scope args).value.map Expr.ty) ∧
      ∀ e ∈ (resolveArgs scope args).value, e.Proper := by
  induction args with
  | nil =>
      rw [resolveArgs]
      exact ⟨.nil, List.forall_mem_nil _⟩
  | cons e es ih =>
      rw [resolveArgs_cons] at clean ⊢
      obtain ⟨cleanFirst, cleanMore⟩ := List.append_eq_nil_iff.1 clean
      obtain ⟨cleanRest, -⟩ := List.append_eq_nil_iff.1 cleanMore
      obtain ⟨cleanInner, same, notVoid⟩ := resolveValue_clean cleanFirst
      rw [List.forall_mem_cons] at each
      have judged := each.1 cleanInner
      obtain ⟨types, proper⟩ := ih each.2 cleanRest
      simp only [Checked.value_bind, Checked.value_pure, List.map_cons]
      rw [List.forall_mem_cons, same]
      exact ⟨.cons judged.typed notVoid types, judged.proper, proper⟩

/-- An expression that resolves without a problem has the type of what it resolves to. -/
theorem resolve_judged {scope : Scope} (ready : scope.Ready) (e : Syntax.Expr) (whole : e.Whole)
    (clean : (resolve scope e).problems = []) :
    Judged scope.context e (resolve scope e).value := by
  induction e using Syntax.Expr.induction with
  | literal span value =>
      rw [resolve]
      refine ⟨?_, trivial, by rintro _ ⟨⟩⟩
      cases value <;> exact .literal span _
  | name n =>
      rw [resolve] at clean ⊢
      exact resolveName_judged ready whole clean
  | unary span op opSpan operand ih =>
      rw [resolve_unary] at clean ⊢
      obtain ⟨cleanOperand, cleanOp⟩ := List.append_eq_nil_iff.1 clean
      obtain ⟨cleanInner, same, -⟩ := resolveValue_clean cleanOperand
      rw [Checked.value_bind]
      rw [same] at cleanOp ⊢
      exact applyUnary_judged (ih whole cleanInner) cleanOp
  | binary span left op opSpan right ihLeft ihRight =>
      rw [resolve_binary] at clean ⊢
      obtain ⟨cleanFirst, cleanRest⟩ := List.append_eq_nil_iff.1 clean
      obtain ⟨cleanSecond, cleanOp⟩ := List.append_eq_nil_iff.1 cleanRest
      obtain ⟨cleanLeft, sameLeft, -⟩ := resolveValue_clean cleanFirst
      obtain ⟨cleanRight, sameRight, -⟩ := resolveValue_clean cleanSecond
      rw [Checked.value_bind, Checked.value_bind]
      rw [sameLeft, sameRight] at cleanOp ⊢
      exact applyBinary_judged (ihLeft whole.1 cleanLeft) (ihRight whole.2 cleanRight) cleanOp
  | assign span target value ih =>
      rw [resolve_assign] at clean ⊢
      obtain ⟨cleanValue, cleanAssign⟩ := List.append_eq_nil_iff.1 clean
      obtain ⟨cleanInner, same, notVoid⟩ := resolveValue_clean cleanValue
      rw [Checked.value_bind]
      rw [same] at cleanAssign ⊢
      exact assignTo_judged ready whole.1 (ih whole.2 cleanInner) notVoid cleanAssign
  | call span callee args ih =>
      have each : ∀ e ∈ args, (resolve scope e).problems = [] →
          Judged scope.context e (resolve scope e).value :=
        fun e member => ih e member (Syntax.Expr.wholeAll_iff.1 whole.2 e member)
      -- only a call of a type's name with exactly one argument is a cast; with another number of
      -- arguments it is a call of a function that does not exist
      rcases call_cases callee args with ⟨t, arg, named, rfl⟩ | plain
      · have tyKnown := ofName?_known named
        rw [resolve_cast named] at clean ⊢
        obtain ⟨cleanArg, cleanCast⟩ := List.append_eq_nil_iff.1 clean
        obtain ⟨cleanInner, same, notVoid⟩ := resolveValue_clean cleanArg
        have judged := each arg List.mem_cons_self cleanInner
        simp only [Checked.value_bind]
        rw [same] at cleanCast ⊢
        have casts := (convertTo_clean_iff_casts judged.proper tyKnown).1 cleanCast
        obtain ⟨proper, ty⟩ := convertTo_gives judged.proper tyKnown cleanCast
        refine ⟨?_, proper, ?_⟩
        · rw [ty]
          exact .cast (names_iff.2 named) judged.typed notVoid casts
        · -- a cast that is left out leaves the variable
          intro v var
          obtain ⟨before, rfl⟩ := convertTo_eq_var (casts_iff.1 casts) var
          exact .cast (names_iff.2 named) (judged.denotes v before)
      · have any := functionsOf_ne_nil ready plain clean
        rw [resolve_call ready.overloads plain any] at clean ⊢
        obtain ⟨cleanArgs, cleanCall⟩ := List.append_eq_nil_iff.1 clean
        obtain ⟨types, proper⟩ := resolveArgs_judged each cleanArgs
        have sameSpans : (args.map Syntax.Expr.span).length =
            (resolveArgs scope args).value.length := by
          rw [List.length_map, resolveArgs_length]
        exact applyOverloads_judged types proper sameSpans any cleanCall
  | paren span inner ih =>
      rw [resolve] at clean ⊢
      obtain ⟨typed, proper, denotes⟩ := ih whole clean
      exact ⟨.paren typed, proper, fun v same => .paren (denotes v same)⟩

/-- What denotes a variable resolves to it. -/
theorem resolve_denotes {scope : Scope} {e : Syntax.Expr} {x : Rules.Entry}
    (denotes : Denotes scope.context e x) (whole : e.Whole) :
    ∃ v, resolve scope e = ⟨.var v, []⟩ ∧ v.entry = x := by
  induction denotes with
  | name sees named =>
      obtain ⟨v, found, entry⟩ := Scope.sees_iff.1 sees
      rw [named] at found
      rw [resolve]
      exact ⟨v, resolveName_eq whole found, entry⟩
  | paren denotes ih =>
      rw [resolve]
      exact ih whole
  | cast named denotes ih =>
      obtain ⟨v, resolved, rfl⟩ := ih whole.2.1
      have value : v.ty ≠ .void := Rules.ne_void_of_writable named.1
      refine ⟨v, ?_, rfl⟩
      rw [resolve_cast (names_iff.1 named),
        resolveValue_eq (by rw [resolved]) (by rw [resolved]; exact value), resolved]
      exact congrArg₂ Checked.mk (congrArg Checked.value convertTo_self)
        (congrArg Checked.problems convertTo_self)

theorem resolveArgs_complete {scope : Scope} {args : List Syntax.Expr}
    (each : ∀ e ∈ args, ∀ t, HasType scope.context e t →
      (resolve scope e).problems = [] ∧ (resolve scope e).value.ty = t)
    {ts : List Ty} (types : HaveTypes scope.context args ts) :
    (resolveArgs scope args).problems = [] ∧ (resolveArgs scope args).value.map Expr.ty = ts := by
  induction args generalizing ts with
  | nil =>
      cases types
      rw [resolveArgs]
      exact ⟨rfl, rfl⟩
  | cons e es ih =>
      obtain _ | ⟨typed, notVoid, types⟩ := types
      rw [List.forall_mem_cons] at each
      obtain ⟨clean, rfl⟩ := each.1 _ typed
      obtain ⟨cleanRest, rfl⟩ := ih each.2 types
      rw [resolveArgs_cons, resolveValue_eq clean notVoid]
      simp only [Checked.problems_bind, Checked.value_bind, Checked.problems_pure,
        Checked.value_pure, cleanRest, List.append_nil, List.map_cons, true_and]

/-- An expression that has a type resolves without a problem, to something of that type. -/
theorem resolve_complete {scope : Scope} (ready : scope.Ready) (e : Syntax.Expr) (whole : e.Whole)
    {t : Ty} (typed : HasType scope.context e t) :
    (resolve scope e).problems = [] ∧ (resolve scope e).value.ty = t := by
  induction e using Syntax.Expr.induction generalizing t with
  | literal span value =>
      cases typed
      rw [resolve]
      cases value <;> exact ⟨rfl, rfl⟩
  | name n =>
      cases typed with
      | name sees named =>
          obtain ⟨v, resolved, rfl⟩ := resolve_denotes (.name sees named) whole
          rw [resolved]
          exact ⟨rfl, rfl⟩
  | unary span op opSpan operand ih =>
      rw [resolve_unary]
      cases typed with
      | unary typed prefixes =>
          obtain ⟨clean, rfl⟩ := ih whole typed
          have judged := resolve_judged ready operand whole clean
          rw [resolveValue_eq clean prefixes.ne_void, Checked.problems_bind, Checked.value_bind,
            applyUnary_plain judged.proper prefixes]
          exact ⟨rfl, rfl⟩
      | step listed denotes int mutable =>
          -- the type of the operand is not enough here: it has to resolve to the variable itself
          obtain ⟨v, resolved, rfl⟩ := resolve_denotes denotes whole
          have int : (Expr.var v).ty = .int := int
          have value : resolveValue scope operand = ⟨.var v, []⟩ := by
            rw [resolveValue_eq (by rw [resolved]) (by rw [resolved, int]; decide), resolved]
          rw [value, Checked.problems_bind, Checked.value_bind,
            applyUnary_step (mem_steps_iff.1 listed) int, stepVariable_eq mutable]
          exact ⟨rfl, rfl⟩
  | binary span left op opSpan right ihLeft ihRight =>
      cases typed with
      | binary typedLeft typedRight combines =>
          obtain ⟨cleanLeft, rfl⟩ := ihLeft whole.1 typedLeft
          obtain ⟨cleanRight, rfl⟩ := ihRight whole.2 typedRight
          have judgedLeft := resolve_judged ready left whole.1 cleanLeft
          have judgedRight := resolve_judged ready right whole.2 cleanRight
          rw [resolve_binary, resolveValue_eq cleanLeft combines.ne_void.1,
            resolveValue_eq cleanRight combines.ne_void.2]
          simp only [Checked.problems_bind, Checked.value_bind]
          rw [applyBinary_eq judgedLeft.proper judgedRight.proper combines]
          exact ⟨rfl, rfl⟩
  | assign span target value ih =>
      cases typed with
      | assign sees named mutable typed notVoid widens =>
          obtain ⟨v, found, rfl⟩ := Scope.sees_iff.1 sees
          rw [named] at found
          have known := ready.vars v (Scope.mem_vars_of_find? found)
          obtain ⟨clean, rfl⟩ := ih whole.2 typed
          have judged := resolve_judged ready value whole.2 clean
          have converted : (convertTo (resolve scope value).value value.span v.ty false).problems =
              [] := (convertTo_clean_iff_widens judged.proper known).2 widens
          rw [resolve_assign, resolveValue_eq clean notVoid, Checked.problems_bind,
            Checked.value_bind, assignTo_eq whole.1 found mutable]
          exact ⟨converted, (convertTo_gives judged.proper known converted).2⟩
  | call span callee args ih =>
      have each : ∀ e ∈ args, ∀ t, HasType scope.context e t →
          (resolve scope e).problems = [] ∧ (resolve scope e).value.ty = t :=
        fun e member t => ih e member (Syntax.Expr.wholeAll_iff.1 whole.2 e member)
      cases typed with
      | cast named typed notVoid casts =>
          rename_i arg s
          have named := names_iff.1 named
          have known := ofName?_known named
          obtain ⟨clean, rfl⟩ := each arg List.mem_cons_self s typed
          have judged := resolve_judged ready arg whole.2.1 clean
          have converted : (convertTo (resolve scope arg).value arg.span t true).problems = [] :=
            (convertTo_clean_iff_casts judged.proper known).2 casts
          rw [resolve_cast named, resolveValue_eq clean notVoid]
          exact ⟨converted, (convertTo_gives judged.proper known converted).2⟩
      | call types means =>
          obtain ⟨cleanArgs, rfl⟩ := resolveArgs_complete each types
          obtain ⟨-, proper⟩ := resolveArgs_judged (fun e member => resolve_judged ready e
            (Syntax.Expr.wholeAll_iff.1 whole.2 e member)) cleanArgs
          have plain : ∀ t, Ty.ofName? callee.text = some t → args.length ≠ 1 := by
            intro t named
            rw [← means.1, ofName?_builtin] at named
            cases named
          have any : functionsOf callee.text ≠ [] :=
            List.ne_nil_of_mem (mem_functionsOf.2 ⟨_, means.1, rfl⟩)
          have sameSpans : (args.map Syntax.Expr.span).length =
              (resolveArgs scope args).value.length := by
            rw [List.length_map, resolveArgs_length]
          rw [resolve_call ready.overloads plain any]
          simp only [Checked.problems_bind, Checked.value_bind]
          rw [cleanArgs]
          exact applyOverloads_complete proper sameSpans means
  | paren span inner ih =>
      cases typed with
      | paren typed =>
          rw [resolve]
          exact ih whole typed

theorem resolveValue_judged {scope : Scope} (ready : scope.Ready) {e : Syntax.Expr}
    (whole : e.Whole) (clean : (resolveValue scope e).problems = []) :
    Judged scope.context e (resolveValue scope e).value ∧
      (resolveValue scope e).value.ty ≠ .void := by
  obtain ⟨cleanInner, same, notVoid⟩ := resolveValue_clean clean
  rw [same]
  exact ⟨resolve_judged ready e whole cleanInner, notVoid⟩

/-- An expression resolves where a value of a type is due exactly if it fits there. -/
theorem resolveTo_clean_iff {scope : Scope} (ready : scope.Ready) {e : Syntax.Expr} (whole : e.Whole)
    {ty : Ty} (tyKnown : ty ≠ .unknown) :
    (resolveTo scope e ty).problems = [] ↔ Rules.Fits scope.context e ty := by
  constructor
  · intro clean
    obtain ⟨cleanValue, converted⟩ := List.append_eq_nil_iff.1 clean
    obtain ⟨judged, notVoid⟩ := resolveValue_judged ready whole cleanValue
    exact ⟨_, judged.typed, notVoid, (convertTo_clean_iff_widens judged.proper tyKnown).1 converted⟩
  · rintro ⟨s, typed, notVoid, widens⟩
    obtain ⟨clean, rfl⟩ := resolve_complete ready e whole typed
    have judged := resolve_judged ready e whole clean
    unfold resolveTo
    rw [resolveValue_eq clean notVoid]
    exact (convertTo_clean_iff_widens judged.proper tyKnown).2 widens

theorem resolveTo_gives {scope : Scope} (ready : scope.Ready) {e : Syntax.Expr} (whole : e.Whole)
    {ty : Ty} (tyKnown : ty ≠ .unknown) (clean : (resolveTo scope e ty).problems = []) :
    (resolveTo scope e ty).value.Gives ty := by
  obtain ⟨cleanValue, converted⟩ := List.append_eq_nil_iff.1 clean
  obtain ⟨judged, -⟩ := resolveValue_judged ready whole cleanValue
  rw [resolveTo, Checked.value_bind]
  exact convertTo_gives judged.proper tyKnown converted

end Bound

end ScriptLang
