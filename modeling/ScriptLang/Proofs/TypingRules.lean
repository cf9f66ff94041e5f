/-
# ScriptLang.Proofs.TypingRules -- which programs are well typed

The rules say when an expression has a type and when a statement may stand where
it stands.  They say nothing of how that is found out, of what is reported
otherwise, or of what a program is turned into.

A context lists the variables of a place, block by block.  An expression is judged
in a context (`HasType`); a statement is judged in the context before it, and the
judgement gives the context after it (`Checks`), so that a declaration counts from
there to the end of its block.  The functions are the built-in ones everywhere.
-/
import ScriptLang.Symbol
import ScriptLang.Syntax.Tree

namespace ScriptLang.Rules

set_option autoImplicit false

/-! ## Contexts -/

/-- What a declaration says of a variable. -/
structure Entry where
  name : String
  ty : Ty
  mutable : Bool
deriving DecidableEq

/-- The variables of the blocks around a place: innermost block first, and in each block in the
order of declaration. -/
abbrev Context := List (List Entry)

namespace Context

/-- A name means the variable of that name in the innermost block that has one. -/
inductive Sees : Context → Entry → Prop where
  | here (x : Entry) (block : List Entry) (Γ : Context) : Sees ((x :: block) :: Γ) x
  | past {x y : Entry} {block : List Entry} {Γ : Context} :
      y.name ≠ x.name → Sees (block :: Γ) x → Sees ((y :: block) :: Γ) x
  | outward {x : Entry} {Γ : Context} : Sees Γ x → Sees ([] :: Γ) x

/-- Whether a name can be declared: the innermost block has no variable of that name, and no
function has it.  Blocks further out do not matter. -/
def Free (Γ : Context) (name : String) : Prop :=
  (∀ block ∈ Γ.head?, ∀ x ∈ block, x.name ≠ name) ∧ ∀ b : Builtin, b.name ≠ name

/-- A context with one more variable in its innermost block. -/
def declare : Context → Entry → Context
  | [], x => [[x]]
  | block :: Γ, x => (block ++ [x]) :: Γ

end Context

/-! ## Types -/

/-- The types of the numbers. -/
def Numeric (t : Ty) : Prop := t = .int ∨ t = .float

/-- The type of what comes out of two numbers. -/
def wider : Ty → Ty → Ty
  | .int, .int => .int
  | _, _ => .float

/-- A type that a program names by writing its name. -/
def Names (name : Syntax.Name) (t : Ty) : Prop := t ∈ Ty.writable ∧ t.name = name.text

/-- Where a value of one type stands for one of another without being asked to. -/
inductive Widens : Ty → Ty → Prop where
  | refl (t : Ty) : Widens t t
  | number : Widens .int .float

/-- Where a value of one type can be made one of another: every value can be written as a string,
and be read from one. -/
inductive Casts : Ty → Ty → Prop where
  | widens {s t : Ty} : Widens s t → Casts s t
  | write {t : Ty} : t ∈ Ty.writable → Casts t .string
  | read {t : Ty} : t ∈ Ty.writable → Casts .string t

/-- The operands of the prefix operators that compute a value, which has the same type.  On integers
`!` is the factorial. -/
inductive Prefixes : UnaryOp → Ty → Prop where
  | identity {t : Ty} : Numeric t → Prefixes .identity t
  | negate {t : Ty} : Numeric t → Prefixes .negate t
  | bitNot : Prefixes .bitNot .int
  | not : Prefixes .not .bool
  | factorial : Prefixes .not .int

/-- The operands of the binary operators and the type of the result.  Numbers of the two kinds mix
in arithmetic and comparison, but not in equality. -/
inductive Combines : BinaryOp → Ty → Ty → Ty → Prop where
  | arithmetic {op : BinaryOp} {l r : Ty} : op ∈ [.add, .sub, .mul, .div, .pow] →
      Numeric l → Numeric r → Combines op l r (wider l r)
  | remainder : Combines .mod .int .int .int
  | bits {op : BinaryOp} {t : Ty} : op ∈ [.bitAnd, .bitOr, .bitXor] → t ∈ [.int, .bool] →
      Combines op t t t
  | shift {op : BinaryOp} : op ∈ [.shl, .shr] → Combines op .int .int .int
  | logic {op : BinaryOp} : op ∈ [.and, .or] → Combines op .bool .bool .bool
  | equality {op : BinaryOp} {t : Ty} : op ∈ [.eq, .ne] → t ∈ Ty.writable → Combines op t t .bool
  | order {op : BinaryOp} {l r : Ty} : op ∈ [.lt, .le, .gt, .ge] →
      Numeric l → Numeric r → Combines op l r .bool
  | append {t : Ty} : t ∈ Ty.writable → Combines .add .string t .string
  | prepend {t : Ty} : t ∈ Ty.writable → Combines .add t .string .string
  | repeated : Combines .mul .string .int .string
  | shortened : Combines .sub .string .int .string

theorem Numeric.ne_void {t : Ty} (h : Numeric t) : t ≠ .void := by
  rcases h with rfl | rfl <;> decide

theorem ne_void_of_writable {t : Ty} (h : t ∈ Ty.writable) : t ≠ .void := by
  rintro rfl
  revert h
  decide

theorem Prefixes.ne_void {op : UnaryOp} {t : Ty} (h : Prefixes op t) : t ≠ .void := by
  cases h with
  | identity number => exact number.ne_void
  | negate number => exact number.ne_void
  | bitNot => decide
  | not => decide
  | factorial => decide

theorem Combines.ne_void {op : BinaryOp} {l r t : Ty} (h : Combines op l r t) :
    l ≠ .void ∧ r ≠ .void := by
  cases h with
  | arithmetic listed left right => exact ⟨left.ne_void, right.ne_void⟩
  | bits listed ty =>
      simp only [List.mem_cons, List.not_mem_nil, or_false] at ty
      rcases ty with rfl | rfl <;> decide
  | equality listed ty => exact ⟨ne_void_of_writable ty, ne_void_of_writable ty⟩
  | order listed left right => exact ⟨left.ne_void, right.ne_void⟩
  | append ty => exact ⟨by decide, ne_void_of_writable ty⟩
  | prepend ty => exact ⟨ne_void_of_writable ty, by decide⟩
  | _ => decide

/-! ## Calls -/

/-- Whether a parameter takes an argument, and how many conversions that needs. -/
inductive Passes : Ty → Ty → Nat → Prop where
  | any (t : Ty) : Passes .any t 0
  | same (t : Ty) : Passes t t 0
  | widened : Passes .float .int 1

/-- Whether parameters take arguments, one for one, and how many conversions that needs. -/
inductive PassAll : List Ty → List Ty → Nat → Prop where
  | nil : PassAll [] [] 0
  | cons {p t : Ty} {ps ts : List Ty} {n m : Nat} :
      Passes p t n → PassAll ps ts m → PassAll (p :: ps) (t :: ts) (m + n)

/-- Whether a function takes arguments of some types, and how many conversions that needs. -/
def Accepts (b : Builtin) (ts : List Ty) (n : Nat) : Prop :=
  PassAll (b.parameters.map Parameter.ty) ts n

/-- A call means the function of that name that takes the arguments with the fewest conversions. -/
def Means (name : Syntax.Name) (ts : List Ty) (b : Builtin) : Prop :=
  b.name = name.text ∧ ∃ n, Accepts b ts n ∧
    ∀ other m, Builtin.name other = name.text → Accepts other ts m → n ≤ m

theorem PassAll.length_eq {ps ts : List Ty} {n : Nat} (h : PassAll ps ts n) :
    ts.length = ps.length := by
  induction h with
  | nil => rfl
  | cons first rest ih => rw [List.length_cons, List.length_cons, ih]

/-- What both overloads of `random` take is an integer, which only one of them has to convert. -/
theorem randomInt_lt_randomFloat {ts : List Ty} {n m : Nat} (int : Accepts .randomInt ts n)
    (float : Accepts .randomFloat ts m) : n < m := by
  obtain _ | ⟨⟨_⟩, ⟨⟩⟩ := int
  obtain _ | ⟨_ | _ | _, ⟨⟩⟩ := float
  exact Nat.zero_lt_one

/-- At most one function is meant. -/
theorem Means.unique {name : Syntax.Name} {ts : List Ty} {b b' : Builtin} (h : Means name ts b)
    (h' : Means name ts b') : b = b' := by
  obtain ⟨named, n, accepts, least⟩ := h
  obtain ⟨named', m, accepts', least'⟩ := h'
  have le := least b' m named' accepts'
  have le' := least' b n named accepts
  have same : b.name = b'.name := named.trans named'.symm
  -- apart from the overloads of `random`, functions have different names
  cases b <;> cases b' <;> first | rfl | (revert same; decide) | skip
  · exact absurd le' (Nat.not_le_of_lt (randomInt_lt_randomFloat accepts accepts'))
  · exact absurd le (Nat.not_le_of_lt (randomInt_lt_randomFloat accepts' accepts))

/-! ## Expressions -/

/-- The variable that an expression is another way of writing: parentheses change nothing, and a
cast to the type that something has is no cast. -/
inductive Denotes (Γ : Context) : Syntax.Expr → Entry → Prop where
  | name {n : Syntax.Name} {x : Entry} : Γ.Sees x → x.name = n.text → Denotes Γ (.name n) x
  | paren {span : Span} {inner : Syntax.Expr} {x : Entry} :
      Denotes Γ inner x → Denotes Γ (.paren span inner) x
  | cast {span : Span} {callee : Syntax.Name} {arg : Syntax.Expr} {x : Entry} :
      Names callee x.ty → Denotes Γ arg x → Denotes Γ (.call span callee [arg]) x

/-- The type of a literal. -/
def literalTy : Syntax.Literal → Ty
  | .bool _ => .bool
  | .int _ => .int
  | .float _ => .float
  | .str _ => .string

mutual

/-- The type of an expression.  Only what stands alone as a statement may be void, so nothing that is
part of something else is. -/
inductive HasType (Γ : Context) : Syntax.Expr → Ty → Prop where
  | literal (span : Span) (value : Syntax.Literal) : HasType Γ (.literal span value) (literalTy value)
  | name {n : Syntax.Name} {x : Entry} : Γ.Sees x → x.name = n.text → HasType Γ (.name n) x.ty
  | unary {span opSpan : Span} {op : UnaryOp} {operand : Syntax.Expr} {t : Ty} :
      HasType Γ operand t → Prefixes op t → HasType Γ (.unary span op opSpan operand) t
  | step {span opSpan : Span} {op : UnaryOp} {operand : Syntax.Expr} {x : Entry} :
      op ∈ [.increment, .decrement] → Denotes Γ operand x → x.ty = .int → x.mutable = true →
      HasType Γ (.unary span op opSpan operand) .int
  | binary {span opSpan : Span} {left right : Syntax.Expr} {op : BinaryOp} {l r t : Ty} :
      HasType Γ left l → HasType Γ right r → Combines op l r t →
      HasType Γ (.binary span left op opSpan right) t
  | assign {span : Span} {target : Syntax.Name} {value : Syntax.Expr} {x : Entry} {s : Ty} :
      Γ.Sees x → x.name = target.text → x.mutable = true → HasType Γ value s → s ≠ .void →
      Widens s x.ty → HasType Γ (.assign span target value) x.ty
  | cast {span : Span} {callee : Syntax.Name} {arg : Syntax.Expr} {s t : Ty} :
      Names callee t → HasType Γ arg s → s ≠ .void → Casts s t →
      HasType Γ (.call span callee [arg]) t
  | call {span : Span} {callee : Syntax.Name} {args : List Syntax.Expr} {ts : List Ty} {b : Builtin} :
      HaveTypes Γ args ts → Means callee ts b → HasType Γ (.call span callee args) b.result
  | paren {span : Span} {inner : Syntax.Expr} {t : Ty} :
      HasType Γ inner t → HasType Γ (.paren span inner) t

/-- The types of arguments. -/
inductive HaveTypes (Γ : Context) : List Syntax.Expr → List Ty → Prop where
  | nil : HaveTypes Γ [] []
  | cons {e : Syntax.Expr} {es : List Syntax.Expr} {t : Ty} {ts : List Ty} :
      HasType Γ e t → t ≠ .void → HaveTypes Γ es ts → HaveTypes Γ (e :: es) (t :: ts)

end

/-- Whether an expression can stand where a value of a type is due. -/
def Fits (Γ : Context) (e : Syntax.Expr) (t : Ty) : Prop :=
  ∃ s, HasType Γ e s ∧ s ≠ .void ∧ Widens s t

/-! ## Statements -/

/-- The type of a declared variable: the one that is written, to which its first value widens, or
else that of its first value. -/
inductive Declares (Γ : Context) : Option Syntax.Name → Syntax.Expr → Ty → Prop where
  | written {name : Syntax.Name} {init : Syntax.Expr} {t : Ty} :
      Names name t → Fits Γ init t → Declares Γ (some name) init t
  | inferred {init : Syntax.Expr} {t : Ty} :
      HasType Γ init t → t ≠ .void → Declares Γ none init t

mutual

/-- Whether a statement may stand in a context, and the context after it. -/
inductive Checks : Context → Syntax.Stmt → Context → Prop where
  | block {Γ Δ : Context} {body : Syntax.Block} :
      ChecksAll ([] :: Γ) body.statements Δ → Checks Γ (.block body) Γ
  | var {Γ : Context} {span : Span} {name : Syntax.Name} {mutable : Bool} {ty : Option Syntax.Name}
      {init : Syntax.Expr} {t : Ty} :
      Declares Γ ty init t → Γ.Free name.text →
      Checks Γ (.var span name mutable ty init) (Γ.declare ⟨name.text, t, mutable⟩)
  | ifThen {Γ Δ : Context} {span : Span} {test : Syntax.Expr} {yes : Syntax.Block} :
      Fits Γ test .bool → ChecksAll ([] :: Γ) yes.statements Δ → Checks Γ (.ifThen span test yes) Γ
  | ifElse {Γ Δ Δ' : Context} {span : Span} {test : Syntax.Expr} {yes no : Syntax.Block} :
      Fits Γ test .bool → ChecksAll ([] :: Γ) yes.statements Δ →
      ChecksAll ([] :: Γ) no.statements Δ' → Checks Γ (.ifElse span test yes no) Γ
  | whileLoop {Γ Δ : Context} {span : Span} {test : Option Syntax.Expr} {body : Syntax.Block} :
      (∀ e ∈ test, Fits Γ e .bool) → ChecksAll ([] :: Γ) body.statements Δ →
      Checks Γ (.whileLoop span test body) Γ
  | doWhile {Γ Δ : Context} {span : Span} {body : Syntax.Block} {test : Syntax.Expr} :
      ChecksAll ([] :: Γ) body.statements Δ → Fits Γ test .bool →
      Checks Γ (.doWhile span body test) Γ
  | forTo {Γ Δ : Context} {span : Span} {var : Syntax.Name} {mutable : Bool}
      {lower upper : Syntax.Expr} {body : Syntax.Block} :
      Fits Γ lower .int → Fits Γ upper .int → Context.Free ([] :: Γ) var.text →
      ChecksAll ([] :: [⟨var.text, .int, mutable⟩] :: Γ) body.statements Δ →
      Checks Γ (.forTo span var mutable lower upper body) Γ
  | expr {Γ : Context} {e : Syntax.Expr} {t : Ty} : HasType Γ e t → Checks Γ (.expr e) Γ

/-- Whether statements may stand one after the other in a context, and the context after them. -/
inductive ChecksAll : Context → List Syntax.Stmt → Context → Prop where
  | nil (Γ : Context) : ChecksAll Γ [] Γ
  | cons {Γ Γ' Γ'' : Context} {s : Syntax.Stmt} {ss : List Syntax.Stmt} :
      Checks Γ s Γ' → ChecksAll Γ' ss Γ'' → ChecksAll Γ (s :: ss) Γ''

end

end ScriptLang.Rules
