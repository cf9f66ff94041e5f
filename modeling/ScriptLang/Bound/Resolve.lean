/-
# ScriptLang.Bound.Resolve -- the meaning of expressions

An expression is resolved in a scope, which it does not change.  What cannot be
resolved becomes an `error` of unknown type, and an operator, call or cast whose
operand is unknown is itself unknown without another report.
-/
import ScriptLang.Bound.Conversion
import ScriptLang.Bound.Problem
import ScriptLang.Bound.Tree
import ScriptLang.Scope
import ScriptLang.Syntax.Tree
import ScriptLang.Text.Spelling

namespace ScriptLang.Bound

set_option autoImplicit false

/-- The value that a literal stands for. -/
def literalValue : Syntax.Literal → Value
  | .bool b => .bool b
  | .int n => .int n
  | .float x => .float x
  | .str s => .str s

/-- Require that an expression has a value. -/
def requireValue (span : Span) (e : Expr) : Checked Expr := do
  if e.ty = .void then
    Checked.report span .voidValue
    return .error
  else return e

/-- Convert an expression to a type.  Where only an explicit conversion exists and `cast` is
false, the conversion is reported and made all the same. -/
def convertTo (e : Expr) (span : Span) (ty : Ty) (cast : Bool) : Checked Expr := do
  let source := e.ty
  let conversion := Conversion.between source ty
  if conversion = .impossible then
    if source ≠ .unknown ∧ ty ≠ .unknown then Checked.report span (.noConversion source ty)
    return .error
  else
    if !conversion.isImplicit && !cast then Checked.report span (.castNeeded source ty)
    return if conversion = .identity then e else .convert ty e

/-- Report a name that is not visible, with the visible name spelled most alike. -/
def reportUnknown (scope : Scope) (name : Syntax.Name) (cause : Cause) : Checked Unit :=
  Checked.reportWith name.span cause (Text.suggest name.text scope.visible)

/-- The variable of a name; a missing name is not reported again. -/
def resolveName (scope : Scope) (name : Syntax.Name) : Checked Expr := do
  if name.isMissing then return .error
  else
    match scope.find? name.text with
    | some v => return .var v
    | none =>
        reportUnknown scope name (.unknownVariable name.text)
        return .error

/-- Step a variable: assign to it what `op` gives with one. -/
def stepVariable (op : BinaryOp) (operand : Expr) (span : Span) : Checked Expr := do
  match operand with
  | .var v =>
      if !v.mutable then Checked.report span (.readOnly v.name)
      return .assign v (.binary (.var v) ⟨op, .int, .int, .int⟩ (.literal (.int 1)))
  | _ =>
      Checked.report span .stepTarget
      return .error

/-- Apply a prefix operator to a resolved operand. -/
def applyUnary (op : UnaryOp) (opSpan : Span) (operand : Expr) (span : Span) : Checked Expr := do
  if operand.isUnknown then return .error
  else
    match UnaryRule.find? op operand.ty with
    | none =>
        Checked.report opSpan (.unaryOperand op operand.ty)
        return .error
    | some rule =>
        match op with
        | .increment => stepVariable .add operand span
        | .decrement => stepVariable .sub operand span
        | _ => return .unary rule operand

/-- Apply a binary operator to resolved operands. -/
def applyBinary (left : Expr) (op : BinaryOp) (opSpan : Span) (right : Expr) : Checked Expr := do
  if left.isUnknown || right.isUnknown then return .error
  else
    match BinaryRule.find? op left.ty right.ty with
    | some rule => return .binary left rule right
    | none =>
        Checked.report opSpan (.binaryOperands op left.ty right.ty)
        return .error

/-- Assign a resolved value.  Without a variable of that name the value stands alone. -/
def assignTo (scope : Scope) (target : Syntax.Name) (value : Expr) (span : Span) :
    Checked Expr := do
  if target.isMissing then return .error
  else
    match scope.find? target.text with
    | none =>
        reportUnknown scope target (.unknownVariable target.text)
        return value
    | some v =>
        if !v.mutable then Checked.report target.span (.readOnly target.text)
        let converted ← convertTo value span v.ty false
        return .assign v converted

/-- How many arguments have to be converted, if a function takes arguments of these types. -/
def callCost? : List Parameter → List Expr → Option Nat
  | p :: ps, a :: as =>
      if p.ty = .any then callCost? ps as
      else
        match Conversion.between a.ty p.ty with
        | .identity => callCost? ps as
        | .implicit => (callCost? ps as).map (· + 1)
        | .explicit | .impossible => none
  | _, _ => some 0

/-- Keep the cheaper of two functions; the earlier one wins a tie. -/
def cheaper (best : Option (Nat × Function)) (next : Nat × Function) : Option (Nat × Function) :=
  match best with
  | none => some next
  | some b => if next.1 < b.1 then some next else some b

/-- The function that takes the arguments with the fewest conversions. -/
def bestOverload? (candidates : List Function) (args : List Expr) : Option Function :=
  let costed := candidates.filterMap fun f => (callCost? f.parameters args).map fun c => (c, f)
  (costed.foldl cheaper none).map (·.2)

/-- Convert arguments to the types of parameters; a parameter of type `any` takes them as they are. -/
def convertArgs : List Span → List Expr → List Parameter → Checked (List Expr)
  | span :: spans, e :: es, p :: ps => do
      let first ← if p.ty = .any then pure e else convertTo e span p.ty false
      let rest ← convertArgs spans es ps
      return first :: rest
  | _, _, _ => return []

/-- Report each parameter for which an argument is missing, or the arguments that are too many. -/
def reportArity (f : Function) (spans : List Span) (span : Span) : Checked Unit :=
  let expected := f.parameters.length
  let given := spans.length
  if given < expected then
    ⟨(), (f.parameters.drop given).map fun p => ⟨span, .missingArgument p.name f.name, none⟩⟩
  else
    match spans.drop expected with
    | [] => pure ()
    | first :: rest =>
        Checked.report (first.merge (rest.getLastD first)) (.extraArguments expected given)

/-- Call the best of several functions of one name with resolved arguments. -/
def applyOverloads (overloads : List Function) (callee : Syntax.Name) (spans : List Span)
    (args : List Expr) (span : Span) : Checked Expr := do
  if args.any Expr.isUnknown then return .error
  else
    match overloads.filter fun f => f.parameters.length = args.length with
    | [] =>
        match overloads with
        | [] => return .error
        | f :: _ =>
            reportArity f spans span
            return .error
    | candidates =>
        match bestOverload? candidates args with
        | some f =>
            let converted ← convertArgs spans args f.parameters
            return .call f converted
        | none =>
            match candidates with
            | [f] =>
                let _ ← convertArgs spans args f.parameters
                return .error
            | _ =>
                Checked.report callee.span (.noOverload callee.text (args.map Expr.ty))
                return .error

mutual

/-- Resolve an expression; it may be void. -/
def resolve (scope : Scope) : Syntax.Expr → Checked Expr
  | .literal _ value => pure (.literal (literalValue value))
  | .name name => resolveName scope name
  | .unary _ op opSpan operand => do
      let bound ← resolve scope operand
      let bound ← requireValue operand.span bound
      applyUnary op opSpan bound operand.span
  | .binary _ left op opSpan right => do
      let boundLeft ← resolve scope left
      let boundLeft ← requireValue left.span boundLeft
      let boundRight ← resolve scope right
      let boundRight ← requireValue right.span boundRight
      applyBinary boundLeft op opSpan boundRight
  | .assign _ target value => do
      let bound ← resolve scope value
      let bound ← requireValue value.span bound
      assignTo scope target bound value.span
  | .call span callee args =>
      let spans := args.map Syntax.Expr.span
      match Ty.ofName? callee.text, spans with
      | some ty, [argSpan] => do
          let bound ← resolveArgs scope args
          match bound with
          | [e] => convertTo e argSpan ty true
          | _ => pure .error
      | _, _ =>
          match scope.overloads callee.text with
          | [] => do
              reportUnknown scope callee (.unknownFunction callee.text)
              pure .error
          | overloads => do
              let bound ← resolveArgs scope args
              applyOverloads overloads callee spans bound span
  | .paren _ inner => resolve scope inner

/-- Resolve arguments, each of which must have a value. -/
def resolveArgs (scope : Scope) : List Syntax.Expr → Checked (List Expr)
  | [] => pure []
  | e :: es => do
      let bound ← resolve scope e
      let first ← requireValue e.span bound
      let rest ← resolveArgs scope es
      return first :: rest

end

/-- Resolve an expression that must have a value. -/
def resolveValue (scope : Scope) (e : Syntax.Expr) : Checked Expr := do
  let bound ← resolve scope e
  requireValue e.span bound

/-- Resolve an expression and convert its value to a type. -/
def resolveTo (scope : Scope) (e : Syntax.Expr) (ty : Ty) : Checked Expr := do
  let bound ← resolveValue scope e
  convertTo bound e.span ty false

end ScriptLang.Bound
