/-
# ScriptLang.Proofs.References -- what expressions are read as

To resolve an expression is to read its names as variables (`Reads`).  Where a
name means nothing, or operands do not fit, an `error` is left in the place of
the expression, and `error` is not free: each one has its cause, which is a name
that is missing or means nothing, a part of unknown type, or a refusal that is
among the problems that were reported.

The cause belongs to the step that refuses.  So there is one relation for each
step, after the values of the operands are known: a prefix operator
(`Prefixed`), a binary one (`Combined`), an assignment (`Assigned`), a place that
wants a type (`Suits`), a call (`Called`).  Each leaves one result, so an
expression is read in one way (`Reads.unique`): a name that means a variable is
that variable and nothing else.
-/
import ScriptLang.Proofs.Suppressing

namespace ScriptLang.Bound

set_option autoImplicit false

/-- Whether a problem of some cause is among others, with a note or without. -/
def Reported (problems : List Problem) (span : Span) (cause : Cause) : Prop :=
  ∃ help, Problem.mk span cause help ∈ problems

theorem Reported.of_subset {problems : List Problem} {span : Span} {cause : Cause}
    {help : Option String} (kept : [⟨span, cause, help⟩] ⊆ problems) :
    Reported problems span cause := ⟨help, kept List.mem_cons_self⟩

/-! ## Steps -/

section

variable (problems : List Problem)

/-- What a place for a type makes of a value.  Where there is no conversion nothing is left of it,
which is reported unless one of the two types is unknown. -/
inductive Suits (span : Span) (ty : Ty) : Expr → Expr → Prop
  | same {x : Expr} (same : x.ty = ty) : Suits span ty x x
  | converted {x : Expr} (other : x.ty ≠ ty) (possible : Conversion.between x.ty ty ≠ .impossible) :
      Suits span ty x (.convert ty x)
  | unknown {x : Expr} (other : x.ty ≠ ty) (unknown : x.ty = .unknown ∨ ty = .unknown) :
      Suits span ty x .error
  | refused {x : Expr} (impossible : Conversion.between x.ty ty = .impossible)
      (reported : Reported problems span (.noConversion x.ty ty)) : Suits span ty x .error

/-- What the parameters of a function make of its arguments; one of type `any` takes them as they
are. -/
inductive SuitsAll : List Parameter → List Span → List Expr → List Expr → Prop
  | nil : SuitsAll [] [] [] []
  | any {p : Parameter} {ps : List Parameter} {span : Span} {spans : List Span} {x : Expr}
      {xs ys : List Expr} (any : p.ty = .any) :
      SuitsAll ps spans xs ys → SuitsAll (p :: ps) (span :: spans) (x :: xs) (x :: ys)
  | typed {p : Parameter} {ps : List Parameter} {span : Span} {spans : List Span} {x y : Expr}
      {xs ys : List Expr} (typed : p.ty ≠ .any) :
      Suits problems span p.ty x y → SuitsAll ps spans xs ys →
        SuitsAll (p :: ps) (span :: spans) (x :: xs) (y :: ys)

/-- What a prefix operator makes of its operand. -/
inductive Prefixed (op : UnaryOp) (opSpan span : Span) : Expr → Expr → Prop
  | applied {x : Expr} {rule : UnaryRule} (plain : op.isStep = false)
      (found : UnaryRule.find? op x.ty = some rule) : Prefixed op opSpan span x (.unary rule x)
  | stepped {v : Variable} {rule : UnaryRule} (steps : op.isStep = true)
      (found : UnaryRule.find? op v.ty = some rule) :
      Prefixed op opSpan span (.var v) (stepExpr op v)
  | unknown {x : Expr} (unknown : x.ty = .unknown) : Prefixed op opSpan span x .error
  | refused {x : Expr} (none : UnaryRule.find? op x.ty = none)
      (reported : Reported problems opSpan (.unaryOperand op x.ty)) :
      Prefixed op opSpan span x .error
  | noVariable {x : Expr} {rule : UnaryRule} (steps : op.isStep = true)
      (found : UnaryRule.find? op x.ty = some rule) (other : ∀ v, x ≠ .var v)
      (reported : Reported problems span .stepTarget) : Prefixed op opSpan span x .error

/-- What a binary operator makes of its operands. -/
inductive Combined (op : BinaryOp) (opSpan : Span) : Expr → Expr → Expr → Prop
  | applied {x y : Expr} {rule : BinaryRule} (found : BinaryRule.find? op x.ty y.ty = some rule) :
      Combined op opSpan x y (.binary x rule y)
  | unknown {x y : Expr} (unknown : x.ty = .unknown ∨ y.ty = .unknown) :
      Combined op opSpan x y .error
  | refused {x y : Expr} (none : BinaryRule.find? op x.ty y.ty = none)
      (reported : Reported problems opSpan (.binaryOperands op x.ty y.ty)) :
      Combined op opSpan x y .error

/-- What a call makes of its arguments.  A refusal is reported in one of three ways: no function of
that name takes so many, the only one that does refuses an argument, or none of several takes
them. -/
inductive Called (callee : Syntax.Name) (spans : List Span) (span : Span) (xs : List Expr) :
    Expr → Prop
  | function {b : Builtin} {ys : List Expr} (known : ∀ x ∈ xs, x.ty ≠ .unknown)
      (meant : Rules.Means callee (xs.map Expr.ty) b)
      (suits : SuitsAll problems b.function.parameters spans xs ys) :
      Called callee spans span xs (.call b.function ys)
  | unknown {x : Expr} (member : x ∈ xs) (unknown : x.ty = .unknown) :
      Called callee spans span xs .error
  | arity {f : Function} {p : Problem} (none : ∀ b, ¬ Rules.Means callee (xs.map Expr.ty) b)
      (listed : f ∈ functionsOf callee.text) (own : p ∈ (reportArity f spans span).problems)
      (reported : p ∈ problems) : Called callee spans span xs .error
  | argument {f : Function} {p : Problem} (none : ∀ b, ¬ Rules.Means callee (xs.map Expr.ty) b)
      (listed : f ∈ functionsOf callee.text)
      (own : p ∈ (convertArgs spans xs f.parameters).problems) (reported : p ∈ problems) : Called callee spans span xs .error
  | overload (none : ∀ b, ¬ Rules.Means callee (xs.map Expr.ty) b)
      (reported : Reported problems callee.span (.noOverload callee.text (xs.map Expr.ty))) :
      Called callee spans span xs .error

end

/-! ### What each step leaves -/

theorem Conversion.between_unknown {source target : Ty} (other : source ≠ target)
    (unknown : source = .unknown ∨ target = .unknown) :
    Conversion.between source target = .impossible := by
  unfold Conversion.between
  rw [if_neg other]
  rcases unknown with rfl | rfl
  · rfl
  · cases source <;> rfl

theorem Conversion.between_eq_identity_iff {source target : Ty} :
    Conversion.between source target = .identity ↔ source = target := by
  refine ⟨Conversion.eq_of_identity, ?_⟩
  rintro rfl
  simp [Conversion.between]

theorem convertTo_impossible {x : Expr} {ty : Ty}
    (impossible : Conversion.between x.ty ty = .impossible) (span : Span) (cast : Bool) :
    (convertTo x span ty cast).value = .error := by
  unfold convertTo
  simp only [impossible, if_true]
  split <;> rfl

theorem UnaryRule.find?_unknown (op : UnaryOp) : UnaryRule.find? op .unknown = none := by
  cases op <;> rfl

theorem BinaryRule.find?_unknown {op : BinaryOp} {left right : Ty}
    (unknown : left = .unknown ∨ right = .unknown) : BinaryRule.find? op left right = none := by
  rcases unknown with rfl | rfl
  · rfl
  · cases left <;> rfl

section

variable {problems : List Problem}

theorem convertTo_suits {x : Expr} {span : Span} {ty : Ty} {cast : Bool}
    (kept : (convertTo x span ty cast).problems ⊆ problems) :
    Suits problems span ty x (convertTo x span ty cast).value := by
  by_cases impossible : Conversion.between x.ty ty = .impossible
  · rw [convertTo_impossible impossible]
    by_cases known : x.ty ≠ .unknown ∧ ty ≠ .unknown
    · have reported : [⟨span, .noConversion x.ty ty, none⟩] ⊆ problems := by
        simpa [convertTo, impossible, known, Checked.report] using kept
      exact .refused impossible (.of_subset reported)
    · refine .unknown ?_ (by tauto)
      intro same
      simp [Conversion.between, same] at impossible
  · rw [convertTo_value impossible]
    by_cases same : x.ty = ty
    · rw [if_pos (Conversion.between_eq_identity_iff.2 same)]
      exact .same same
    · rw [if_neg (mt Conversion.between_eq_identity_iff.1 same)]
      exact .converted same impossible

theorem Suits.eq_convertTo {x y : Expr} {span : Span} {ty : Ty} (suits : Suits problems span ty x y)
    (cast : Bool) : y = (convertTo x span ty cast).value := by
  cases suits with
  | same same =>
      have identity := Conversion.between_eq_identity_iff.2 same
      rw [convertTo_value (by simp [identity]), if_pos identity]
  | converted other possible =>
      rw [convertTo_value possible, if_neg (mt Conversion.between_eq_identity_iff.1 other)]
  | unknown other unknown => rw [convertTo_impossible (Conversion.between_unknown other unknown)]
  | refused impossible reported => rw [convertTo_impossible impossible]

theorem Suits.unique {x y z : Expr} {span : Span} {ty : Ty} (first : Suits problems span ty x y)
    (second : Suits problems span ty x z) : y = z :=
  (first.eq_convertTo false).trans (second.eq_convertTo false).symm

theorem convertArgs_suits {ps : List Parameter} {spans : List Span} {xs : List Expr}
    (each : OneEach ps spans xs) (kept : (convertArgs spans xs ps).problems ⊆ problems) :
    SuitsAll problems ps spans xs (convertArgs spans xs ps).value := by
  induction each with
  | nil => exact .nil
  | cons p span x rest ih =>
      rw [convertArgs_cons, List.append_subset] at kept
      rw [convertArgs_cons]
      have others := ih kept.2
      unfold convertArg at kept ⊢
      by_cases any : p.ty = .any
      · simp only [if_pos any]
        exact .any any others
      · simp only [if_neg any] at kept ⊢
        exact .typed any (convertTo_suits kept.1) others

theorem SuitsAll.eq_convertArgs {ps : List Parameter} {spans : List Span} {xs ys : List Expr}
    (suits : SuitsAll problems ps spans xs ys) : ys = (convertArgs spans xs ps).value := by
  induction suits with
  | nil => rfl
  | any any rest ih => rw [convertArgs_cons, convertArg, if_pos any, ← ih]; rfl
  | typed typed first rest ih =>
      rw [convertArgs_cons, convertArg, if_neg typed, ← ih, ← first.eq_convertTo]

theorem stepVariable_prefixed {op : UnaryOp} (steps : op.isStep = true) {rule : UnaryRule}
    {x : Expr} (found : UnaryRule.find? op x.ty = some rule) {opSpan span : Span}
    (kept : (stepVariable (stepOp op) x span).problems ⊆ problems) :
    Prefixed problems op opSpan span x (stepVariable (stepOp op) x span).value := by
  cases x with
  | var v =>
      have value : (stepVariable (stepOp op) (.var v) span).value = stepExpr op v := by
        unfold stepVariable
        dsimp only
        split <;> rfl
      rw [value]
      exact .stepped steps found
  | _ => exact .noVariable steps found (by rintro v ⟨⟩) (.of_subset kept)

theorem applyUnary_prefixed {op : UnaryOp} {opSpan span : Span} {x : Expr}
    (kept : (applyUnary op opSpan x span).problems ⊆ problems) :
    Prefixed problems op opSpan span x (applyUnary op opSpan x span).value := by
  cases unknown : x.isUnknown with
  | true =>
      rw [applyUnary, unknown]
      exact .unknown (of_decide_eq_true unknown)
  | false =>
      cases found : UnaryRule.find? op x.ty with
      | none =>
          simp only [applyUnary, unknown, found, Bool.false_eq_true, if_false] at kept ⊢
          exact .refused found (.of_subset kept)
      | some rule =>
          simp only [applyUnary, unknown, found, Bool.false_eq_true, if_false] at kept ⊢
          cases op with
          | increment => exact stepVariable_prefixed rfl found kept
          | decrement => exact stepVariable_prefixed rfl found kept
          | _ => exact .applied rfl found

/-- Only integers are stepped. -/
theorem ty_of_step {op : UnaryOp} (steps : op.isStep = true) {ty : Ty} {rule : UnaryRule}
    (found : UnaryRule.find? op ty = some rule) : ty = .int := by
  have listed := (UnaryRule.of_find? found).2
  cases op with
  | increment => simpa [UnaryRule.operands] using listed
  | decrement => simpa [UnaryRule.operands] using listed
  | _ => cases steps

theorem Prefixed.eq_applyUnary {op : UnaryOp} {opSpan span : Span} {x y : Expr}
    (given : Prefixed problems op opSpan span x y) : y = (applyUnary op opSpan x span).value := by
  cases given with
  | applied plain found =>
      have known : x.isUnknown = false := by
        refine isUnknown_eq_false.2 fun unknown => ?_
        rw [unknown, UnaryRule.find?_unknown] at found
        cases found
      rw [applyUnary, known, found]
      cases op with
      | increment => cases plain
      | decrement => cases plain
      | _ => rfl
  | @stepped v rule steps found =>
      have int : (Expr.var v).ty = .int := ty_of_step steps found
      rw [applyUnary_step steps int, stepVariable]
      dsimp only
      split <;> rfl
  | unknown unknown =>
      rw [applyUnary, show x.isUnknown = true from decide_eq_true unknown]
      rfl
  | refused none reported =>
      rw [applyUnary, none]
      split <;> rfl
  | noVariable steps found other reported =>
      rw [applyUnary_step steps (ty_of_step steps found)]
      cases x with
      | var v => exact absurd rfl (other v)
      | _ => rfl

theorem applyBinary_combined {op : BinaryOp} {opSpan : Span} {x y : Expr}
    (kept : (applyBinary x op opSpan y).problems ⊆ problems) :
    Combined problems op opSpan x y (applyBinary x op opSpan y).value := by
  cases unknown : x.isUnknown || y.isUnknown with
  | true =>
      rw [applyBinary, unknown]
      exact .unknown (by simpa [Expr.isUnknown] using unknown)
  | false =>
      cases found : BinaryRule.find? op x.ty y.ty with
      | none =>
          simp only [applyBinary, unknown, found, Bool.false_eq_true, if_false] at kept ⊢
          exact .refused found (.of_subset kept)
      | some rule =>
          simp only [applyBinary, unknown, found, Bool.false_eq_true, if_false]
          exact .applied found

theorem Combined.eq_applyBinary {op : BinaryOp} {opSpan : Span} {x y z : Expr}
    (given : Combined problems op opSpan x y z) : z = (applyBinary x op opSpan y).value := by
  cases given with
  | @applied rule found =>
      have known : (x.isUnknown || y.isUnknown) = false := by
        by_contra unknown
        have either : x.ty = .unknown ∨ y.ty = .unknown := by
          simpa [Expr.isUnknown, or_iff_not_imp_left] using unknown
        rw [BinaryRule.find?_unknown either] at found
        cases found
      rw [applyBinary, known, found]
      rfl
  | unknown unknown =>
      have either : (x.isUnknown || y.isUnknown) = true := by simpa [Expr.isUnknown] using unknown
      rw [applyBinary, either]
      rfl
  | refused none reported =>
      rw [applyBinary, none]
      split <;> rfl

theorem applyOverloads_unknown {overloads : List Function} {callee : Syntax.Name}
    {spans : List Span} {xs : List Expr} {span : Span} (unknown : ∃ x ∈ xs, x.ty = .unknown) :
    (applyOverloads overloads callee spans xs span).value = .error := by
  have given : xs.any Expr.isUnknown = true := by simpa [Expr.isUnknown] using unknown
  unfold applyOverloads
  rw [given]
  rfl

/-- Without a function that is meant a call is given up. -/
theorem applyOverloads_none {callee : Syntax.Name} {spans : List Span} {xs : List Expr}
    {span : Span} (none : bestOverload? (candidatesFor callee.text xs) xs = none) :
    (applyOverloads (functionsOf callee.text) callee spans xs span).value = .error := by
  unfold applyOverloads
  rw [← candidatesFor]
  split
  · rfl
  · split
    · split <;> rfl
    · split
      · rename_i best
        rw [none] at best
        cases best
      · split <;> rfl

/-- Where arguments are known and no function is meant, the refusal is reported. -/
theorem applyOverloads_refused {callee : Syntax.Name} (any : functionsOf callee.text ≠ [])
    {spans : List Span} {xs : List Expr} (known : ¬ ∃ x ∈ xs, x.isUnknown = true)
    (sameSpans : spans.length = xs.length)
    (best : bestOverload? (candidatesFor callee.text xs) xs = none) {span : Span}
    (kept : (applyOverloads (functionsOf callee.text) callee spans xs span).problems ⊆ problems) :
    Called problems callee spans span xs .error := by
  have none : ∀ b, ¬ Rules.Means callee (xs.map Expr.ty) b := by
    intro b meant
    rw [best_of_means meant] at best
    cases best
  unfold applyOverloads at kept
  rw [← candidatesFor, any_isUnknown_eq_false known] at kept
  simp only [Bool.false_eq_true, if_false] at kept
  cases candidates : candidatesFor callee.text xs with
  | nil =>
      obtain ⟨f, rest, functions⟩ := List.exists_cons_of_ne_nil any
      have listed : f ∈ functionsOf callee.text := by
        rw [functions]
        exact List.mem_cons_self
      have arity : f.parameters.length ≠ spans.length := by
        rw [sameSpans]
        exact length_ne_of_candidates candidates listed
      have reported : (reportArity f spans span).problems ≠ [] := reportArity_ne_nil arity
      rw [candidates, functions] at kept
      obtain ⟨p, own⟩ := List.exists_mem_of_ne_nil _ reported
      exact .arity none listed own (kept (List.mem_append_left _ own))
  | cons f rest =>
      rw [candidates] at kept best
      simp only [best] at kept
      cases rest with
      | nil =>
          have candidate : f ∈ candidatesFor callee.text xs := by
            rw [candidates]
            exact List.mem_cons_self
          obtain ⟨b, named, arity, rfl⟩ := mem_candidatesFor.1 candidate
          have listed : b.function ∈ functionsOf callee.text := mem_functionsOf.2 ⟨b, named, rfl⟩
          have reported : (convertArgs spans xs b.function.parameters).problems ≠ [] := by
            intro clean
            have cost := (convertArgs_builtin known sameSpans b arity.symm).1.1 clean
            exact bestOverload?_singleton cost best
          obtain ⟨p, own⟩ := List.exists_mem_of_ne_nil _ reported
          exact .argument none listed own (kept (List.mem_append_left _ own))
      | cons g rest => exact .overload none (.of_subset kept)

theorem applyOverloads_called {callee : Syntax.Name} (any : functionsOf callee.text ≠ [])
    {spans : List Span} {xs : List Expr} (sameSpans : spans.length = xs.length) {span : Span}
    (kept : (applyOverloads (functionsOf callee.text) callee spans xs span).problems ⊆ problems) :
    Called problems callee spans span xs
      (applyOverloads (functionsOf callee.text) callee spans xs span).value := by
  by_cases unknown : ∃ x ∈ xs, x.isUnknown = true
  · obtain ⟨x, member, unknown⟩ := unknown
    have unknown : x.ty = .unknown := of_decide_eq_true unknown
    rw [applyOverloads_unknown ⟨x, member, unknown⟩]
    exact .unknown member unknown
  · cases best : bestOverload? (candidatesFor callee.text xs) xs with
    | none =>
        rw [applyOverloads_none best]
        exact applyOverloads_refused any unknown sameSpans best kept
    | some f =>
        obtain ⟨b, rfl, arity, meant⟩ := means_of_best best
        rw [applyOverloads_eq (any_isUnknown_eq_false unknown) best] at kept ⊢
        refine .function ?_ meant (convertArgs_suits (.of_length sameSpans arity) kept)
        exact fun x member there => unknown ⟨x, member, decide_eq_true there⟩

theorem Called.eq_applyOverloads {callee : Syntax.Name} {spans : List Span} {xs : List Expr}
    {span : Span} {y : Expr} (given : Called problems callee spans span xs y) :
    y = (applyOverloads (functionsOf callee.text) callee spans xs span).value := by
  have refused : (∀ b, ¬ Rules.Means callee (xs.map Expr.ty) b) →
      (applyOverloads (functionsOf callee.text) callee spans xs span).value = .error := by
    intro none
    refine applyOverloads_none (Option.eq_none_iff_forall_ne_some.2 fun f best => ?_)
    obtain ⟨b, -, -, meant⟩ := means_of_best best
    exact none b meant
  cases given with
  | function known meant suits =>
      have known : xs.any Expr.isUnknown = false := by simpa [Expr.isUnknown] using known
      rw [applyOverloads_eq known (best_of_means meant), ← suits.eq_convertArgs]
  | unknown member unknown => rw [applyOverloads_unknown ⟨_, member, unknown⟩]
  | arity none listed own reported => exact (refused none).symm
  | argument none listed own reported => exact (refused none).symm
  | overload none reported => exact (refused none).symm

end

/-! ## Expressions -/

section

variable (means : String → Option Variable) (problems : List Problem)

/-- What a name is read as: the variable it means.  It is given up only if it is missing, or means
nothing and is reported. -/
inductive Refers (n : Syntax.Name) : Expr → Prop
  | var {v : Variable} (here : n.isMissing = false) (meant : means n.text = some v) :
      Refers n (.var v)
  | missing (missing : n.isMissing = true) : Refers n .error
  | meaningless (here : n.isMissing = false) (none : means n.text = none)
      (reported : Reported problems n.span (.unknownVariable n.text)) : Refers n .error

/-- What an assignment makes of a value: one to a name that means nothing leaves the value alone,
and one to a missing name leaves nothing. -/
inductive Assigned (target : Syntax.Name) (span : Span) : Expr → Expr → Prop
  | stored {v : Variable} {x y : Expr} (here : target.isMissing = false)
      (meant : means target.text = some v) (suits : Suits problems span v.ty x y) :
      Assigned target span x (.assign v y)
  | missing {x : Expr} (missing : target.isMissing = true) : Assigned target span x .error
  | meaningless {x : Expr} (here : target.isMissing = false) (none : means target.text = none)
      (reported : Reported problems target.span (.unknownVariable target.text)) :
      Assigned target span x x

mutual

/-- What an expression is read as, where `problems` are those that were reported. -/
inductive Reads : Syntax.Expr → Expr → Prop
  | literal (span : Span) (value : Syntax.Literal) :
      Reads (.literal span value) (.literal (literalValue value))
  | name {n : Syntax.Name} {x : Expr} : Refers means problems n x → Reads (.name n) x
  | unary {span opSpan : Span} {op : UnaryOp} {e : Syntax.Expr} {x y : Expr} :
      Values e x → Prefixed problems op opSpan e.span x y → Reads (.unary span op opSpan e) y
  | binary {span opSpan : Span} {op : BinaryOp} {l r : Syntax.Expr} {x y z : Expr} :
      Values l x → Values r y → Combined problems op opSpan x y z →
        Reads (.binary span l op opSpan r) z
  | assign {span : Span} {target : Syntax.Name} {e : Syntax.Expr} {x y : Expr} :
      Values e x → Assigned means problems target e.span x y → Reads (.assign span target e) y
  | cast {span : Span} {callee : Syntax.Name} {e : Syntax.Expr} {ty : Ty} {x y : Expr}
      (named : Ty.ofName? callee.text = some ty) :
      Values e x → Suits problems e.span ty x y → Reads (.call span callee [e]) y
  | call {span : Span} {callee : Syntax.Name} {args : List Syntax.Expr} {xs : List Expr} {y : Expr}
      (plain : ∀ t, Ty.ofName? callee.text = some t → args.length ≠ 1)
      (any : functionsOf callee.text ≠ []) :
      List.Forall₂ Values args xs →
        Called problems callee (args.map Syntax.Expr.span) span xs y →
        Reads (.call span callee args) y
  -- the arguments of a call that means nothing are not read
  | uncallable {span : Span} {callee : Syntax.Name} {args : List Syntax.Expr}
      (plain : ∀ t, Ty.ofName? callee.text = some t → args.length ≠ 1)
      (none : functionsOf callee.text = [])
      (reported : Reported problems callee.span (.unknownFunction callee.text)) :
      Reads (.call span callee args) .error
  | paren {span : Span} {e : Syntax.Expr} {x : Expr} : Reads e x → Reads (.paren span e) x

/-- What an expression is read as where a value is needed. -/
inductive Values : Syntax.Expr → Expr → Prop
  | value {e : Syntax.Expr} {x : Expr} (reads : Reads e x) (value : x.ty ≠ .void) : Values e x
  | void {e : Syntax.Expr} {x : Expr} (reads : Reads e x) (void : x.ty = .void)
      (reported : Reported problems e.span .voidValue) : Values e .error

end

/-- What an expression is read as where a value of some type is needed. -/
def ReadsTo (ty : Ty) (e : Syntax.Expr) (y : Expr) : Prop :=
  ∃ x, Values means problems e x ∧ Suits problems e.span ty x y

end

section

variable {means : String → Option Variable} {problems : List Problem}

/-! ### One reading -/

theorem Refers.unique {n : Syntax.Name} {x y : Expr} (first : Refers means problems n x)
    (second : Refers means problems n y) : x = y := by
  cases first with
  | var here meant =>
      cases second with
      | var _ meant' =>
          rw [meant] at meant'
          cases meant'
          rfl
      | missing missing => simp [missing] at here
      | meaningless _ none => simp [none] at meant
  | missing missing =>
      cases second with
      | var here _ => simp [missing] at here
      | _ => rfl
  | meaningless here none =>
      cases second with
      | var _ meant => simp [none] at meant
      | _ => rfl

theorem Assigned.unique {target : Syntax.Name} {span : Span} {x y z : Expr}
    (first : Assigned means problems target span x y)
    (second : Assigned means problems target span x z) : y = z := by
  cases first with
  | stored here meant suits =>
      cases second with
      | stored _ meant' suits' =>
          rw [meant] at meant'
          cases meant'
          rw [suits.unique suits']
      | missing missing => simp [missing] at here
      | meaningless _ none => simp [none] at meant
  | missing missing =>
      cases second with
      | missing => rfl
      | stored here => simp [missing] at here
      | meaningless here => simp [missing] at here
  | meaningless here none =>
      cases second with
      | meaningless => rfl
      | stored _ meant => simp [none] at meant
      | missing missing => simp [missing] at here

theorem Values.unique {e : Syntax.Expr}
    (each : ∀ {x y}, Reads means problems e x → Reads means problems e y → x = y) {x y : Expr}
    (first : Values means problems e x) (second : Values means problems e y) : x = y := by
  cases first with
  | value reads value =>
      cases second with
      | value reads' => exact each reads reads'
      | void reads' void => exact absurd (each reads reads' ▸ void) value
  | void reads void =>
      cases second with
      | value reads' value => exact absurd (each reads reads' ▸ void) value
      | void => rfl

theorem Values.uniqueAll {es : List Syntax.Expr}
    (each : ∀ e ∈ es, ∀ {x y}, Reads means problems e x → Reads means problems e y → x = y)
    {xs ys : List Expr} (first : List.Forall₂ (Values means problems) es xs)
    (second : List.Forall₂ (Values means problems) es ys) : xs = ys := by
  induction first generalizing ys with
  | nil =>
      cases second
      rfl
  | cons head rest ih =>
      rw [List.forall_mem_cons] at each
      cases second with
      | cons head' rest' => rw [head.unique each.1 head', ih each.2 rest']

/-- An expression is read in one way. -/
theorem Reads.unique {e : Syntax.Expr} {x y : Expr} (first : Reads means problems e x)
    (second : Reads means problems e y) : x = y := by
  induction e using Syntax.Expr.induction generalizing x y with
  | literal span value =>
      cases first
      cases second
      rfl
  | name n =>
      cases first with
      | name refers =>
      cases second with
      | name refers' => exact refers.unique refers'
  | unary span op opSpan operand ih =>
      cases first with
      | unary values given =>
      cases second with
      | unary values' given' =>
          rw [values.unique ih values'] at given
          exact given.eq_applyUnary.trans given'.eq_applyUnary.symm
  | binary span left op opSpan right ihLeft ihRight =>
      cases first with
      | binary valuesLeft valuesRight given =>
      cases second with
      | binary valuesLeft' valuesRight' given' =>
          rw [valuesLeft.unique ihLeft valuesLeft',
            valuesRight.unique ihRight valuesRight'] at given
          exact given.eq_applyBinary.trans given'.eq_applyBinary.symm
  | assign span target value ih =>
      cases first with
      | assign values given =>
      cases second with
      | assign values' given' =>
          rw [values.unique ih values'] at given
          exact given.unique given'
  | call span callee args ih =>
      -- a call has three rules, and the names of types and functions tell which one it takes
      cases first with
      | cast named values suits =>
          cases second with
          | cast named' values' suits' =>
              rw [named] at named'
              cases named'
              rw [values.unique (ih _ List.mem_cons_self) values'] at suits
              exact suits.unique suits'
          | call plain => exact absurd rfl (plain _ named)
          | uncallable plain => exact absurd rfl (plain _ named)
      | call plain any values given =>
          cases second with
          | cast named => exact absurd rfl (plain _ named)
          | call _ _ values' given' =>
              rw [Values.uniqueAll ih values values'] at given
              exact given.eq_applyOverloads.trans given'.eq_applyOverloads.symm
          | uncallable _ none => exact absurd none any
      | uncallable plain none =>
          cases second with
          | cast named => exact absurd rfl (plain _ named)
          | call _ any => exact absurd none any
          | uncallable => rfl
  | paren span inner ih =>
      cases first with
      | paren reads =>
      cases second with
      | paren reads' => exact ih reads reads'

theorem ReadsTo.unique {ty : Ty} {e : Syntax.Expr} {x y : Expr}
    (first : ReadsTo means problems ty e x) (second : ReadsTo means problems ty e y) : x = y := by
  obtain ⟨a, values, suits⟩ := first
  obtain ⟨b, values', suits'⟩ := second
  rw [values.unique Reads.unique values'] at suits
  exact suits.unique suits'

/-! ### What resolving gives -/

theorem requireValue_values {e : Syntax.Expr} {x : Expr} (reads : Reads means problems e x)
    (kept : (requireValue e.span x).problems ⊆ problems) :
    Values means problems e (requireValue e.span x).value := by
  by_cases void : x.ty = .void
  · rw [requireValue_void void] at kept ⊢
    exact .void reads void (.of_subset kept)
  · rw [requireValue_eq void]
    exact .value reads void

theorem resolveName_refers {scope : Scope} {n : Syntax.Name}
    (kept : (resolveName scope n).problems ⊆ problems) :
    Refers scope.find? problems n (resolveName scope n).value := by
  unfold resolveName at kept ⊢
  cases missing : n.isMissing with
  | true => exact .missing missing
  | false =>
      cases found : scope.find? n.text with
      | none =>
          rw [missing, found] at kept
          exact .meaningless missing found (.of_subset kept)
      | some v => exact .var missing found

theorem assignTo_assigned {scope : Scope} {target : Syntax.Name} {x : Expr} {span : Span}
    (kept : (assignTo scope target x span).problems ⊆ problems) :
    Assigned scope.find? problems target span x (assignTo scope target x span).value := by
  cases missing : target.isMissing with
  | true =>
      rw [assignTo, missing]
      exact .missing missing
  | false =>
      cases found : scope.find? target.text with
      | none =>
          rw [assignTo, missing, found] at kept ⊢
          exact .meaningless missing found (.of_subset kept)
      | some v =>
          have value : (assignTo scope target x span).value =
              .assign v (convertTo x span v.ty false).value := by
            cases mutable : v.mutable <;> simp [assignTo, missing, found, mutable]
          have converted : (convertTo x span v.ty false).problems ⊆ problems := by
            refine List.Subset.trans ?_ kept
            cases mutable : v.mutable <;> simp [assignTo, missing, found, mutable]
          rw [value]
          exact .stored missing found (convertTo_suits converted)

section

variable {scope : Scope} (functions : ∀ name, scope.overloads name = functionsOf name)

theorem resolveValue_values {e : Syntax.Expr}
    (each : (resolve scope e).problems ⊆ problems →
      Reads scope.find? problems e (resolve scope e).value)
    (kept : (resolveValue scope e).problems ⊆ problems) :
    Values scope.find? problems e (resolveValue scope e).value := by
  obtain ⟨inner, value⟩ := List.append_subset.1 kept
  exact requireValue_values (each inner) value

theorem resolveArgs_values {args : List Syntax.Expr}
    (each : ∀ e ∈ args, (resolve scope e).problems ⊆ problems →
      Reads scope.find? problems e (resolve scope e).value)
    (kept : (resolveArgs scope args).problems ⊆ problems) :
    List.Forall₂ (Values scope.find? problems) args (resolveArgs scope args).value := by
  rw [resolveArgs_eq] at kept ⊢
  simp only [List.forall₂_map_right_iff, List.forall₂_same]
  exact fun e member => resolveValue_values (each e member) fun p there =>
    kept (List.mem_flatMap.2 ⟨e, member, there⟩)

include functions

/-- What resolving gives is how an expression is read where names mean what the scope finds. -/
theorem resolve_reads (e : Syntax.Expr) (kept : (resolve scope e).problems ⊆ problems) :
    Reads scope.find? problems e (resolve scope e).value := by
  induction e using Syntax.Expr.induction with
  | literal span value =>
      rw [resolve]
      exact .literal span value
  | name n =>
      rw [resolve] at kept ⊢
      exact .name (resolveName_refers kept)
  | unary span op opSpan operand ih =>
      rw [resolve_unary] at kept ⊢
      obtain ⟨inner, own⟩ := List.append_subset.1 kept
      exact .unary (resolveValue_values ih inner) (applyUnary_prefixed own)
  | binary span left op opSpan right ihLeft ihRight =>
      rw [resolve_binary] at kept ⊢
      obtain ⟨first, rest⟩ := List.append_subset.1 kept
      obtain ⟨second, own⟩ := List.append_subset.1 rest
      exact .binary (resolveValue_values ihLeft first) (resolveValue_values ihRight second)
        (applyBinary_combined own)
  | assign span target value ih =>
      rw [resolve_assign] at kept ⊢
      obtain ⟨inner, own⟩ := List.append_subset.1 kept
      exact .assign (resolveValue_values ih inner) (assignTo_assigned own)
  | call span callee args ih =>
      rcases call_cases callee args with ⟨t, arg, named, rfl⟩ | plain
      · rw [resolve_cast named] at kept ⊢
        obtain ⟨inner, own⟩ := List.append_subset.1 kept
        have values := resolveValue_values (ih arg List.mem_cons_self) inner
        exact .cast named values (convertTo_suits own)
      · by_cases any : functionsOf callee.text = []
        · rw [resolve_uncallable functions plain any] at kept ⊢
          exact .uncallable plain any (.of_subset kept)
        · rw [resolve_call functions plain any] at kept ⊢
          obtain ⟨inner, own⟩ := List.append_subset.1 kept
          have sameSpans : (args.map Syntax.Expr.span).length =
              (resolveArgs scope args).value.length := by
            rw [List.length_map, resolveArgs_length]
          exact .call plain any (resolveArgs_values ih inner)
            (applyOverloads_called any sameSpans own)
  | paren span inner ih =>
      rw [resolve] at kept ⊢
      exact .paren (ih kept)

theorem resolveTo_readsTo {e : Syntax.Expr} {ty : Ty}
    (kept : (resolveTo scope e ty).problems ⊆ problems) :
    ReadsTo scope.find? problems ty e (resolveTo scope e ty).value := by
  obtain ⟨inner, own⟩ := List.append_subset.1 kept
  exact ⟨_, resolveValue_values (resolve_reads functions e) inner, convertTo_suits own⟩

end

end

end ScriptLang.Bound
