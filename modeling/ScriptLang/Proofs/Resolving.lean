/-
# ScriptLang.Proofs.Resolving -- expressions that resolve without a problem

An operator, an assignment or a call acts on the values of its operands
(`resolve_unary`, `resolve_plain` and so on), and arguments are converted one by
one (`convertArgs_induction`).

What resolves without a problem is an expression in which types fit
(`resolve_known`), as long as no name is missing in it.  A silent `error` comes
only from a missing name or from an operand that is itself unknown, so it comes
with a report from somewhere below; the two tables that decide about a call,
the costs of its arguments and their conversions, agree on what can be passed.
-/
import ScriptLang.Bound.Resolve
import ScriptLang.Proofs.Typing
import ScriptLang.Proofs.Whole

namespace ScriptLang

set_option autoImplicit false

/-! ## Scopes -/

namespace Scope

/-- The variables of a scope, also those that are shadowed. -/
def vars (s : Scope) : List Variable := s.frames.flatMap Frame.vars

/-- The functions of a scope. -/
def functions (s : Scope) : List Function := s.frames.flatMap Frame.functions

theorem mem_vars_of_find? {s : Scope} {name : String} {v : Variable} (h : s.find? name = some v) :
    v ∈ s.vars := by
  obtain ⟨frame, member, found⟩ := List.exists_of_findSome?_eq_some h
  exact List.mem_flatMap.2 ⟨frame, member, List.mem_of_find?_eq_some found⟩

theorem mem_functions_of_overloads {s : Scope} {name : String} {f : Function}
    (h : f ∈ s.overloads name) : f ∈ s.functions := by
  unfold overloads at h
  cases found : (s.frames.map (·.overloads name)).find? (!·.isEmpty) with
  | none =>
      rw [found] at h
      cases h
  | some fs =>
      rw [found] at h
      obtain ⟨frame, member, rfl⟩ := List.mem_map.1 (List.mem_of_find?_eq_some found)
      exact List.mem_flatMap.2 ⟨frame, member, (List.mem_filter.1 h).1⟩

/-- Whether the variables of a scope have values and types that are known, and its functions are
built in. -/
structure Fits (τ : Nat → Ty) (Γ : List Nat) (s : Scope) : Prop where
  vars : ∀ v ∈ s.vars, v.id ∈ Γ ∧ v.ty = τ v.id ∧ v.ty ≠ .unknown
  functions : ∀ f ∈ s.functions, ∃ b : Builtin, f = b.function

end Scope

namespace Bound

variable {τ : Nat → Ty} {Γ : List Nat}

/-- Whether types fit in an expression, and its own is known. -/
def Expr.Known (τ : Nat → Ty) (Γ : List Nat) (e : Expr) : Prop := e.Typed τ Γ ∧ e.ty ≠ .unknown

theorem Expr.Known.isUnknown {e : Expr} (known : e.Known τ Γ) : e.isUnknown = false :=
  decide_eq_false known.2

/-! ## What expressions resolve to -/

theorem Checked.report_ne_nil (span : Span) (cause : Cause) :
    (Checked.report span cause).problems ≠ [] := by
  simp [Checked.report]

theorem Checked.bind_assoc {α β γ : Type} (c : Checked α) (f : α → Checked β) (g : β → Checked γ) :
    c >>= f >>= g = c >>= fun a => f a >>= g :=
  congrArg (Checked.mk _) (List.append_assoc _ _ _)

theorem requireValue_void {e : Expr} (void : e.ty = .void) (span : Span) :
    requireValue span e = ⟨.error, [⟨span, .voidValue, none⟩]⟩ := by
  unfold requireValue
  rw [if_pos void]
  rfl

theorem requireValue_eq {e : Expr} (value : e.ty ≠ .void) (span : Span) :
    requireValue span e = ⟨e, []⟩ := by
  unfold requireValue
  rw [if_neg value]
  rfl

theorem requireValue_clean_iff {span : Span} {e : Expr} :
    (requireValue span e).problems = [] ↔ e.ty ≠ .void := by
  refine ⟨fun clean void => ?_, fun value => by rw [requireValue_eq value]⟩
  rw [requireValue_void void] at clean
  cases clean

theorem requireValue_clean {span : Span} {e : Expr} (clean : (requireValue span e).problems = []) :
    (requireValue span e).value = e := by
  rw [requireValue_eq (requireValue_clean_iff.1 clean)]

theorem resolve_unary (scope : Scope) (span : Span) (op : UnaryOp) (opSpan : Span)
    (operand : Syntax.Expr) :
    resolve scope (.unary span op opSpan operand) =
      resolveValue scope operand >>= fun bound => applyUnary op opSpan bound operand.span := by
  rw [resolve, resolveValue, Checked.bind_assoc]

theorem resolve_binary (scope : Scope) (span : Span) (left : Syntax.Expr) (op : BinaryOp)
    (opSpan : Span) (right : Syntax.Expr) :
    resolve scope (.binary span left op opSpan right) =
      resolveValue scope left >>= fun boundLeft =>
        resolveValue scope right >>= fun boundRight =>
          applyBinary boundLeft op opSpan boundRight := by
  simp only [resolve, resolveValue, Checked.bind_assoc]

theorem resolve_assign (scope : Scope) (span : Span) (target : Syntax.Name) (value : Syntax.Expr) :
    resolve scope (.assign span target value) =
      resolveValue scope value >>= fun bound => assignTo scope target bound value.span := by
  rw [resolve, resolveValue, Checked.bind_assoc]

theorem resolveArgs_cons (scope : Scope) (e : Syntax.Expr) (es : List Syntax.Expr) :
    resolveArgs scope (e :: es) =
      resolveValue scope e >>= fun first =>
        resolveArgs scope es >>= fun rest => pure (first :: rest) := by
  rw [resolveArgs, resolveValue, Checked.bind_assoc]

theorem resolveArgs_eq (scope : Scope) (args : List Syntax.Expr) :
    resolveArgs scope args =
      ⟨args.map fun e => (resolveValue scope e).value,
        args.flatMap fun e => (resolveValue scope e).problems⟩ := by
  induction args with
  | nil => rw [resolveArgs]; rfl
  | cons e es ih =>
      rw [resolveArgs_cons, ih]
      exact congrArg (fun more => Checked.mk _ (_ ++ more)) (List.append_nil _)

theorem resolveArgs_length (scope : Scope) (args : List Syntax.Expr) :
    (resolveArgs scope args).value.length = args.length := by
  rw [resolveArgs_eq, List.length_map]

/-- What a call means: a conversion, the call of a function, or nothing. -/
theorem call_cases (callee : Syntax.Name) (args : List Syntax.Expr) :
    (∃ t arg, Ty.ofName? callee.text = some t ∧ args = [arg]) ∨
      (∀ t, Ty.ofName? callee.text = some t → args.length ≠ 1) := by
  by_cases one : args.length = 1
  · cases named : Ty.ofName? callee.text with
    | none => exact .inr fun t other => by cases other
    | some t =>
        obtain ⟨arg, rfl⟩ := List.length_eq_one_iff.1 one
        exact .inl ⟨t, arg, rfl, rfl⟩
  · exact .inr fun _ _ => one

theorem resolve_cast {scope : Scope} {span : Span} {callee : Syntax.Name} {arg : Syntax.Expr} {t : Ty}
    (named : Ty.ofName? callee.text = some t) :
    resolve scope (.call span callee [arg]) =
      (resolveValue scope arg >>= fun e => convertTo e arg.span t true) := by
  rw [resolve]
  simp only [List.map_cons, List.map_nil, named, resolveArgs]
  refine congrArg₂ Checked.mk rfl ?_
  simp only [resolveValue, Checked.problems_bind, Checked.value_bind, Checked.problems_pure,
    Checked.value_pure, List.append_nil, List.append_assoc]

/-- A call that is no conversion means the functions of its name. -/
theorem resolve_plain {scope : Scope} {span : Span} {callee : Syntax.Name} {args : List Syntax.Expr}
    (plain : ∀ t, Ty.ofName? callee.text = some t → args.length ≠ 1) :
    resolve scope (.call span callee args) =
      if scope.overloads callee.text = [] then
        reportUnknown scope callee (.unknownFunction callee.text) >>= fun _ => pure .error
      else resolveArgs scope args >>= fun bound =>
        applyOverloads (scope.overloads callee.text) callee (args.map Syntax.Expr.span) bound span := by
  rw [resolve]
  split
  · rename_i t argSpan named single
    have one := congrArg List.length single
    rw [List.length_map] at one
    exact absurd one (plain t named)
  · cases scope.overloads callee.text <;> rfl

theorem resolveValue_clean {scope : Scope} {e : Syntax.Expr}
    (clean : (resolveValue scope e).problems = []) :
    (resolve scope e).problems = [] ∧ (resolveValue scope e).value = (resolve scope e).value ∧
      (resolve scope e).value.ty ≠ .void := by
  obtain ⟨cleanInner, cleanValue⟩ := List.append_eq_nil_iff.1 clean
  exact ⟨cleanInner, requireValue_clean cleanValue, requireValue_clean_iff.1 cleanValue⟩

theorem resolveValue_eq {scope : Scope} {e : Syntax.Expr} (clean : (resolve scope e).problems = [])
    (value : (resolve scope e).value.ty ≠ .void) :
    resolveValue scope e = ⟨(resolve scope e).value, []⟩ := by
  show Checked.mk (requireValue e.span (resolve scope e).value).value
    ((resolve scope e).problems ++ (requireValue e.span (resolve scope e).value).problems) = _
  rw [requireValue_eq value, clean, List.nil_append]

/-! ## Conversions and names -/

theorem Conversion.eq_of_identity {source target : Ty}
    (h : Conversion.between source target = .identity) : source = target := by
  unfold Conversion.between at h
  split at h
  · assumption
  · split at h <;> cases h

theorem convertTo_value {e : Expr} {span : Span} {ty : Ty} {cast : Bool}
    (possible : Conversion.between e.ty ty ≠ .impossible) :
    (convertTo e span ty cast).value =
      if Conversion.between e.ty ty = .identity then e else .convert ty e := by
  unfold convertTo
  dsimp only
  rw [if_neg possible]
  split <;> rfl

/-- A conversion passes without a problem if it is there, and happens by itself or is asked for. -/
theorem convertTo_clean {e : Expr} {span : Span} {ty : Ty} {cast : Bool} (known : e.ty ≠ .unknown)
    (tyKnown : ty ≠ .unknown) (clean : (convertTo e span ty cast).problems = []) :
    Conversion.between e.ty ty ≠ .impossible ∧
      ((Conversion.between e.ty ty).isImplicit = true ∨ cast = true) := by
  unfold convertTo at clean
  dsimp only at clean
  split at clean
  · rw [if_pos ⟨known, tyKnown⟩] at clean
    simp [Checked.report] at clean
  · rename_i possible
    refine ⟨possible, ?_⟩
    cases implicit : (Conversion.between e.ty ty).isImplicit with
    | true => exact .inl rfl
    | false =>
        cases cast with
        | true => exact .inr rfl
        | false =>
            rw [implicit] at clean
            simp [Checked.report] at clean

/-- A conversion without a problem gives the type it was asked for. -/
theorem convertTo_hasType {e : Expr} (known : e.Known τ Γ) {ty : Ty} (tyKnown : ty ≠ .unknown)
    {span : Span} {cast : Bool} (clean : (convertTo e span ty cast).problems = []) :
    (convertTo e span ty cast).value.HasType τ Γ ty := by
  obtain ⟨possible, -⟩ := convertTo_clean known.2 tyKnown clean
  rw [convertTo_value possible]
  cases between : Conversion.between e.ty ty with
  | impossible => exact absurd between possible
  | identity => exact ⟨known.1, Conversion.eq_of_identity between⟩
  | implicit => exact ⟨⟨known.1, .inl between⟩, rfl⟩
  | explicit => exact ⟨⟨known.1, .inr between⟩, rfl⟩

theorem resolveName_known {scope : Scope} (fits : scope.Fits τ Γ) {name : Syntax.Name}
    (here : name.isMissing = false) (clean : (resolveName scope name).problems = []) :
    (resolveName scope name).value.Known τ Γ := by
  unfold resolveName at clean ⊢
  rw [here] at clean ⊢
  simp only [Bool.false_eq_true, if_false] at clean ⊢
  cases found : scope.find? name.text with
  | none =>
      rw [found] at clean
      simp [reportUnknown, Checked.reportWith] at clean
  | some v =>
      obtain ⟨member, ty, tyKnown⟩ := fits.vars v (Scope.mem_vars_of_find? found)
      exact ⟨⟨member, ty⟩, tyKnown⟩

/-! ## Operators and assignments -/

theorem UnaryRule.of_find? {op : UnaryOp} {ty : Ty} {rule : UnaryRule}
    (found : UnaryRule.find? op ty = some rule) : rule = ⟨op, ty, ty⟩ ∧ (op, ty) ∈ operands := by
  unfold UnaryRule.find? at found
  split at found
  · cases found
    exact ⟨rfl, by assumption⟩
  · cases found

theorem stepVariable_known {op : BinaryOp} (steps : op = .add ∨ op = .sub) {operand : Expr}
    (known : operand.Known τ Γ) (int : operand.ty = .int) {span : Span}
    (clean : (stepVariable op operand span).problems = []) :
    (stepVariable op operand span).value.Known τ Γ := by
  cases operand with
  | var v =>
      have tyVar : v.ty = .int := int
      have rule : BinaryRule.find? op v.ty .int = some ⟨op, .int, .int, .int⟩ := by
        rw [tyVar]
        rcases steps with rfl | rfl <;> rfl
      have value : (stepVariable op (.var v) span).value =
          .assign v (.binary (.var v) ⟨op, .int, .int, .int⟩ (.literal (.int 1))) := by
        unfold stepVariable
        dsimp only
        split <;> rfl
      rw [value]
      refine ⟨⟨known.1.1, known.1.2, ⟨known.1, trivial, rule⟩, tyVar.symm⟩, ?_⟩
      show Ty.int ≠ .unknown
      decide
  | _ => simp [stepVariable, Checked.report] at clean

theorem applyUnary_known {op : UnaryOp} {opSpan span : Span} {operand : Expr}
    (known : operand.Known τ Γ) (clean : (applyUnary op opSpan operand span).problems = []) :
    (applyUnary op opSpan operand span).value.Known τ Γ := by
  unfold applyUnary at clean ⊢
  rw [known.isUnknown] at clean ⊢
  simp only [Bool.false_eq_true, if_false] at clean ⊢
  cases found : UnaryRule.find? op operand.ty with
  | none =>
      rw [found] at clean
      simp [Checked.report] at clean
  | some rule =>
      rw [found] at clean
      obtain ⟨same, listed⟩ := UnaryRule.of_find? found
      have plain : op.isStep = false → (Expr.unary rule operand).Known τ Γ := by
        intro plain
        refine ⟨⟨known.1, ?_, ?_⟩, ?_⟩
        · rw [same]; exact plain
        · rw [same] at found ⊢; exact found
        · show rule.result ≠ .unknown
          rw [same]; exact known.2
      cases op with
      | increment =>
          have int : operand.ty = .int := by simpa [UnaryRule.operands] using listed
          exact stepVariable_known (.inl rfl) known int clean
      | decrement =>
          have int : operand.ty = .int := by simpa [UnaryRule.operands] using listed
          exact stepVariable_known (.inr rfl) known int clean
      | _ => exact plain rfl

theorem result?_ne_unknown {op : BinaryOp} {l r ty : Ty} (h : BinaryRule.result? op l r = some ty) :
    ty ≠ .unknown := by
  unfold BinaryRule.result? at h
  rintro rfl
  split at h
  all_goals first
    | cases h
    | (split at h; · cases h)
  all_goals first
    | cases h
    | (split at h <;> cases h)

theorem applyBinary_known {left right : Expr} {op : BinaryOp} {opSpan : Span}
    (knownLeft : left.Known τ Γ) (knownRight : right.Known τ Γ)
    (clean : (applyBinary left op opSpan right).problems = []) :
    (applyBinary left op opSpan right).value.Known τ Γ := by
  unfold applyBinary at clean ⊢
  rw [knownLeft.isUnknown, knownRight.isUnknown] at clean ⊢
  simp only [Bool.or_false, Bool.false_eq_true, if_false] at clean ⊢
  cases found : BinaryRule.find? op left.ty right.ty with
  | none =>
      rw [found] at clean
      simp [Checked.report] at clean
  | some rule =>
      obtain ⟨result, announced, rfl⟩ := Option.map_eq_some_iff.1 found
      exact ⟨⟨knownLeft.1, knownRight.1, found⟩, result?_ne_unknown announced⟩

theorem assignTo_known {scope : Scope} (fits : scope.Fits τ Γ) {target : Syntax.Name}
    (here : target.isMissing = false) {value : Expr} (known : value.Known τ Γ) {span : Span}
    (clean : (assignTo scope target value span).problems = []) :
    (assignTo scope target value span).value.Known τ Γ := by
  unfold assignTo at clean ⊢
  rw [here] at clean ⊢
  simp only [Bool.false_eq_true, if_false] at clean ⊢
  cases found : scope.find? target.text with
  | none =>
      rw [found] at clean
      simp [reportUnknown, Checked.reportWith] at clean
  | some v =>
      rw [found] at clean
      dsimp only at clean ⊢
      obtain ⟨member, ty, tyKnown⟩ := fits.vars v (Scope.mem_vars_of_find? found)
      cases mutable : v.mutable with
      | false =>
          rw [mutable] at clean
          simp [Checked.report] at clean
      | true =>
          rw [mutable] at clean
          simp only [Bool.not_true, Bool.false_eq_true, if_false] at clean ⊢
          have converted := convertTo_hasType known tyKnown (List.append_eq_nil_iff.1 clean).1
          refine ⟨⟨member, ty, converted.1, converted.2⟩, ?_⟩
          show (convertTo value span v.ty false).value.ty ≠ .unknown
          rw [converted.2]
          exact tyKnown

/-! ## Calls -/

theorem parameters_known (b : Builtin) : ∀ p ∈ b.parameters, p.ty ≠ .unknown := by
  cases b <;> decide

theorem result_known (b : Builtin) : b.result ≠ .unknown := by
  cases b <;> decide

/-- Convert one argument to the type of its parameter. -/
def convertArg (span : Span) (e : Expr) (p : Parameter) : Checked Expr :=
  if p.ty = .any then pure e else convertTo e span p.ty false

/-- A conversion ends with the shortest of its lists. -/
theorem convertArgs_ended {spans : List Span} {args : List Expr} {ps : List Parameter}
    (ended : spans = [] ∨ args = [] ∨ ps = []) : convertArgs spans args ps = pure [] := by
  rcases ended with rfl | rfl | rfl
  · cases args <;> cases ps <;> rfl
  · cases spans <;> cases ps <;> rfl
  · cases spans <;> cases args <;> rfl

/-- The first argument is converted, then the others. -/
theorem convertArgs_bind (span : Span) (spans : List Span) (e : Expr) (es : List Expr)
    (p : Parameter) (ps : List Parameter) :
    convertArgs (span :: spans) (e :: es) (p :: ps) =
      convertArg span e p >>= fun first =>
        convertArgs spans es ps >>= fun rest => pure (first :: rest) := by
  rw [convertArgs, convertArg]
  split <;> rfl

theorem convertArgs_cons (span : Span) (spans : List Span) (e : Expr) (es : List Expr)
    (p : Parameter) (ps : List Parameter) :
    convertArgs (span :: spans) (e :: es) (p :: ps) =
      ⟨(convertArg span e p).value :: (convertArgs spans es ps).value,
        (convertArg span e p).problems ++ (convertArgs spans es ps).problems⟩ := by
  rw [convertArgs_bind]
  exact congrArg (fun more => Checked.mk _ (_ ++ more)) (List.append_nil _)

/-- Induction along a conversion of arguments, argument by argument. -/
@[elab_as_elim]
theorem convertArgs_induction {motive : List Span → List Expr → List Parameter → Prop}
    (ended : ∀ spans args ps, spans = [] ∨ args = [] ∨ ps = [] → motive spans args ps)
    (more : ∀ span spans e es p ps, motive spans es ps →
      motive (span :: spans) (e :: es) (p :: ps)) (spans : List Span) (args : List Expr)
    (ps : List Parameter) : motive spans args ps := by
  induction spans generalizing args ps with
  | nil => exact ended _ _ _ (.inl rfl)
  | cons span spans ih =>
      cases args with
      | nil => exact ended _ _ _ (.inr (.inl rfl))
      | cons e es =>
          cases ps with
          | nil => exact ended _ _ _ (.inr (.inr rfl))
          | cons p ps => exact more span spans e es p ps (ih es ps)

/-- Whether there is one argument, with its span, for each parameter. -/
inductive OneEach : List Parameter → List Span → List Expr → Prop where
  | nil : OneEach [] [] []
  | cons (p : Parameter) (span : Span) (e : Expr) {ps : List Parameter} {spans : List Span}
      {es : List Expr} (rest : OneEach ps spans es) : OneEach (p :: ps) (span :: spans) (e :: es)

theorem OneEach.of_length {ps : List Parameter} {spans : List Span} {args : List Expr}
    (sameSpans : spans.length = args.length) (sameArgs : args.length = ps.length) :
    OneEach ps spans args := by
  induction ps generalizing spans args with
  | nil =>
      obtain rfl : args = [] := List.length_eq_zero_iff.1 sameArgs
      obtain rfl : spans = [] := List.length_eq_zero_iff.1 sameSpans
      exact .nil
  | cons p ps ih =>
      obtain ⟨e, es, rfl⟩ := List.exists_cons_of_length_eq_add_one sameArgs
      obtain ⟨span, spans, rfl⟩ := List.exists_cons_of_length_eq_add_one sameSpans
      exact .cons p span e (ih (Nat.succ.inj sameSpans) (Nat.succ.inj sameArgs))

/-- An argument that is converted without a problem is taken by the parameter, at some cost. -/
theorem convertArg_clean {p : Parameter} (tyKnown : p.ty ≠ .unknown) {e : Expr}
    (known : e.Known τ Γ) {span : Span} (clean : (convertArg span e p).problems = []) :
    (convertArg span e p).value.Typed τ Γ ∧ Takes p (convertArg span e p).value.ty ∧
      ∀ ps es, callCost? ps es ≠ none → callCost? (p :: ps) (e :: es) ≠ none := by
  unfold convertArg at clean ⊢
  by_cases any : p.ty = .any
  · simp only [if_pos any]
    refine ⟨known.1, .inl any, ?_⟩
    intro ps es cost
    rw [callCost?, if_pos any]
    exact cost
  · simp only [if_neg any] at clean ⊢
    have converted := convertTo_hasType known tyKnown clean
    refine ⟨converted.1, .inr converted.2, ?_⟩
    intro ps es cost
    obtain ⟨possible, implicit⟩ := convertTo_clean known.2 tyKnown clean
    rw [callCost?, if_neg any]
    cases between : Conversion.between e.ty p.ty with
    | identity => exact cost
    | implicit => simpa using cost
    | explicit =>
        rw [between] at implicit
        rcases implicit with implicit | implicit <;> cases implicit
    | impossible => exact absurd between possible

/-- Arguments that are converted without a problem are taken by the parameters, and have a cost. -/
theorem convertArgs_clean {ps : List Parameter} (parameters : ∀ p ∈ ps, p.ty ≠ .unknown)
    {spans : List Span} {args : List Expr} (known : ∀ e ∈ args, e.Known τ Γ)
    (sameSpans : spans.length = args.length) (sameArgs : args.length = ps.length)
    (clean : (convertArgs spans args ps).problems = []) :
    (∀ e ∈ (convertArgs spans args ps).value, e.Typed τ Γ) ∧
      List.Forall₂ Takes ps ((convertArgs spans args ps).value.map Expr.ty) ∧
      callCost? ps args ≠ none := by
  have each := OneEach.of_length sameSpans sameArgs
  clear sameSpans sameArgs
  induction each with
  | nil => exact ⟨fun _ member => (nomatch member), .nil, by simp [callCost?]⟩
  | cons p span e _ ih =>
      rw [List.forall_mem_cons] at parameters known
      rw [convertArgs_cons, List.append_eq_nil_iff] at clean
      obtain ⟨typed, takes, cost⟩ := convertArg_clean parameters.1 known.1 clean.1
      obtain ⟨typedRest, takesRest, costRest⟩ := ih parameters.2 known.2 clean.2
      rw [convertArgs_cons, List.map_cons, List.forall_mem_cons, List.forall₂_cons]
      exact ⟨⟨typed, typedRest⟩, ⟨takes, takesRest⟩, cost _ _ costRest⟩

theorem mem_foldl_cheaper {costed : List (Nat × Function)} {best : Option (Nat × Function)}
    {chosen : Nat × Function} (h : costed.foldl cheaper best = some chosen) :
    best = some chosen ∨ chosen ∈ costed := by
  induction costed generalizing best with
  | nil => exact .inl h
  | cons next rest ih =>
      rcases ih h with now | later
      · cases best with
        | none =>
            cases now
            exact .inr List.mem_cons_self
        | some b =>
            unfold cheaper at now
            dsimp only at now
            split at now
            · cases now
              exact .inr List.mem_cons_self
            · exact .inl now
      · exact .inr (List.mem_cons_of_mem _ later)

/-- The function that is called is one of those that could be. -/
theorem mem_of_bestOverload? {candidates : List Function} {args : List Expr} {f : Function}
    (best : bestOverload? candidates args = some f) : f ∈ candidates := by
  obtain ⟨⟨cost, g⟩, chosen, rfl⟩ := Option.map_eq_some_iff.1 best
  rcases mem_foldl_cheaper chosen with none | member
  · cases none
  · obtain ⟨g', candidate, costed⟩ := List.mem_filterMap.1 member
    obtain ⟨_, -, same⟩ := Option.map_eq_some_iff.1 costed
    cases same
    exact candidate

theorem bestOverload?_singleton {f : Function} {args : List Expr}
    (cost : callCost? f.parameters args ≠ none) : bestOverload? [f] args ≠ none := by
  obtain ⟨n, given⟩ := Option.ne_none_iff_exists'.1 cost
  simp [bestOverload?, given, cheaper]

theorem reportArity_ne_nil {f : Function} {spans : List Span} {span : Span}
    (arity : f.parameters.length ≠ spans.length) : (reportArity f spans span).problems ≠ [] := by
  unfold reportArity
  dsimp only
  split
  · rename_i few
    intro none
    have empty : f.parameters.drop spans.length = [] := by simpa using none
    rw [List.drop_eq_nil_iff] at empty
    omega
  · split
    · rename_i enough empty
      rw [List.drop_eq_nil_iff] at empty
      omega
    · exact Checked.report_ne_nil _ _

theorem any_isUnknown {args : List Expr} (known : ∀ e ∈ args, e.Known τ Γ) :
    args.any Expr.isUnknown = false := by
  rw [List.any_eq_false]
  intro e member
  simp [(known e member).isUnknown]

theorem applyOverloads_known {overloads : List Function}
    (builtin : ∀ f ∈ overloads, ∃ b : Builtin, f = b.function) (any : overloads ≠ [])
    {callee : Syntax.Name} {spans : List Span} {args : List Expr}
    (known : ∀ e ∈ args, e.Known τ Γ) (sameSpans : spans.length = args.length) {span : Span}
    (clean : (applyOverloads overloads callee spans args span).problems = []) :
    (applyOverloads overloads callee spans args span).value.Known τ Γ := by
  unfold applyOverloads at clean ⊢
  rw [any_isUnknown known] at clean ⊢
  simp only [Bool.false_eq_true, if_false] at clean ⊢
  have converts : ∀ f ∈ overloads.filter (fun f => f.parameters.length = args.length),
      (convertArgs spans args f.parameters).problems = [] →
      (Expr.call f (convertArgs spans args f.parameters).value).Known τ Γ ∧
        callCost? f.parameters args ≠ none := by
    intro f member cleanArgs
    obtain ⟨listed, arity⟩ := List.mem_filter.1 member
    obtain ⟨b, rfl⟩ := builtin f listed
    obtain ⟨typed, takes, cost⟩ := convertArgs_clean (parameters_known b) known sameSpans
      (of_decide_eq_true arity).symm cleanArgs
    exact ⟨⟨⟨Expr.typedAll_iff.2 typed, b, rfl, takes⟩, result_known b⟩, cost⟩
  cases candidates : overloads.filter (fun f => f.parameters.length = args.length) with
  | nil =>
      -- no function takes that many arguments, which is reported
      rw [candidates] at clean
      cases overloads with
      | nil => exact absurd rfl any
      | cons f rest =>
          have arity : f.parameters.length ≠ spans.length := by
            intro same
            have listed : f ∈ (f :: rest).filter (fun f => f.parameters.length = args.length) :=
              List.mem_filter.2 ⟨List.mem_cons_self, decide_eq_true (same.trans sameSpans)⟩
            rw [candidates] at listed
            cases listed
          exact absurd (List.append_eq_nil_iff.1 clean).1 (reportArity_ne_nil arity)
  | cons f rest =>
      rw [candidates] at clean converts
      dsimp only at clean ⊢
      cases best : bestOverload? (f :: rest) args with
      | some g =>
          rw [best] at clean
          dsimp only at clean ⊢
          simp only [Checked.problems_bind, Checked.problems_pure, List.append_nil] at clean
          exact (converts g (mem_of_bestOverload? best) clean).1
      | none =>
          rw [best] at clean
          cases rest with
          | nil =>
              dsimp only at clean
              simp only [Checked.problems_bind, Checked.problems_pure, List.append_nil] at clean
              have cost := (converts f List.mem_cons_self clean).2
              exact absurd best (bestOverload?_singleton cost)
          | cons g rest => simp [Checked.report] at clean

/-! ## Expressions -/

/-- Requiring a value changes nothing about what resolves without a problem. -/
theorem known_of_resolve {scope : Scope} {e : Syntax.Expr}
    (known : (resolve scope e).problems = [] → (resolve scope e).value.Known τ Γ)
    (clean : (resolveValue scope e).problems = []) : (resolveValue scope e).value.Known τ Γ := by
  obtain ⟨cleanInner, same, -⟩ := resolveValue_clean clean
  rw [same]
  exact known cleanInner

theorem resolveArgs_known {scope : Scope} {args : List Syntax.Expr}
    (each : ∀ e ∈ args, (resolve scope e).problems = [] → (resolve scope e).value.Known τ Γ)
    (clean : (resolveArgs scope args).problems = []) :
    ∀ e ∈ (resolveArgs scope args).value, e.Known τ Γ := by
  rw [resolveArgs_eq] at clean ⊢
  exact List.forall_mem_map.2 fun e member =>
    known_of_resolve (each e member) (List.flatMap_eq_nil_iff.1 clean e member)

theorem ofName?_known {name : String} {ty : Ty} (h : Ty.ofName? name = some ty) : ty ≠ .unknown := by
  have listed : ty ∈ Ty.writable := List.mem_of_find?_eq_some h
  rintro rfl
  simp [Ty.writable] at listed

/-- What resolves without a problem is an expression in which types fit, of a type that is known. -/
theorem resolve_known {scope : Scope} (fits : scope.Fits τ Γ) (e : Syntax.Expr) (whole : e.Whole)
    (clean : (resolve scope e).problems = []) : (resolve scope e).value.Known τ Γ := by
  induction e using Syntax.Expr.induction with
  | literal span value =>
      rw [resolve]
      cases value <;> exact ⟨trivial, by simp [literalValue, Expr.ty, Value.ty]⟩
  | name n =>
      rw [resolve] at clean ⊢
      exact resolveName_known fits whole clean
  | unary span op opSpan operand ih =>
      rw [resolve_unary] at clean ⊢
      obtain ⟨cleanOperand, cleanOp⟩ := List.append_eq_nil_iff.1 clean
      exact applyUnary_known (known_of_resolve (ih whole) cleanOperand) cleanOp
  | binary span left op opSpan right ihLeft ihRight =>
      rw [resolve_binary] at clean ⊢
      obtain ⟨cleanLeft, cleanRest⟩ := List.append_eq_nil_iff.1 clean
      obtain ⟨cleanRight, cleanOp⟩ := List.append_eq_nil_iff.1 cleanRest
      exact applyBinary_known (known_of_resolve (ihLeft whole.1) cleanLeft)
        (known_of_resolve (ihRight whole.2) cleanRight) cleanOp
  | assign span target value ih =>
      rw [resolve_assign] at clean ⊢
      obtain ⟨cleanInner, cleanAssign⟩ := List.append_eq_nil_iff.1 clean
      exact assignTo_known fits whole.1 (known_of_resolve (ih whole.2) cleanInner) cleanAssign
  | call span callee args ih =>
      have each : ∀ e ∈ args, (resolve scope e).problems = [] →
          (resolve scope e).value.Known τ Γ :=
        fun e member => ih e member (Syntax.Expr.wholeAll_iff.1 whole.2 e member)
      rcases call_cases callee args with ⟨ty, arg, named, rfl⟩ | plain
      · rw [resolve_cast named] at clean ⊢
        obtain ⟨cleanArg, cleanCast⟩ := List.append_eq_nil_iff.1 clean
        have known := known_of_resolve (each arg List.mem_cons_self) cleanArg
        have converted := convertTo_hasType known (ofName?_known named) cleanCast
        refine ⟨converted.1, ?_⟩
        rw [Checked.value_bind, converted.2]
        exact ofName?_known named
      · rw [resolve_plain plain] at clean ⊢
        by_cases none : scope.overloads callee.text = []
        · rw [if_pos none] at clean
          simp [reportUnknown, Checked.reportWith] at clean
        · rw [if_neg none] at clean ⊢
          obtain ⟨cleanArgs, cleanCall⟩ := List.append_eq_nil_iff.1 clean
          have builtin : ∀ f ∈ scope.overloads callee.text, ∃ b : Builtin, f = b.function :=
            fun f member => fits.functions f (Scope.mem_functions_of_overloads member)
          have sameSpans : (args.map Syntax.Expr.span).length =
              (resolveArgs scope args).value.length := by
            rw [List.length_map, resolveArgs_length]
          exact applyOverloads_known builtin none (resolveArgs_known each cleanArgs) sameSpans
            cleanCall
  | paren span inner ih =>
      rw [resolve] at clean ⊢
      exact ih whole clean

theorem resolveValue_known {scope : Scope} (fits : scope.Fits τ Γ) {e : Syntax.Expr}
    (whole : e.Whole) (clean : (resolveValue scope e).problems = []) :
    (resolveValue scope e).value.Known τ Γ :=
  known_of_resolve (resolve_known fits e whole) clean

theorem resolveTo_hasType {scope : Scope} (fits : scope.Fits τ Γ) {e : Syntax.Expr}
    (whole : e.Whole) {ty : Ty} (tyKnown : ty ≠ .unknown)
    (clean : (resolveTo scope e ty).problems = []) :
    (resolveTo scope e ty).value.HasType τ Γ ty := by
  unfold resolveTo at clean ⊢
  simp only [Checked.problems_bind, List.append_eq_nil_iff, Checked.value_bind] at clean ⊢
  exact convertTo_hasType (resolveValue_known fits whole clean.1) tyKnown clean.2

end Bound

end ScriptLang
