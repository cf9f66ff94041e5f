/-
# ScriptLang.Proofs.Replacing -- replacing literals, and nothing but literals

Replacing answers `none` for a tree in which nothing was replaced, so the tree
that it means is the answer, or the tree itself.  `Rewrites` says what that tree
is, and when there is an answer.  It goes through everything that trees are
rebuilt from: one part (`Rewrites.map`), two parts (`Rewrites.pair`), and a list
that is copied from the first change on (`Rewrites.copied`, `Rewrites.copyAll`).

So a rule that replaces some literals by others gives the tree that plain
recursion gives (`Stmt.mapLiterals`), and answers exactly if there is such a
literal (`Stmt.replace_literals`).  That tree has the literals of the first one in
their order, each of them put through the function, and is the same in all else
(`Stmt.literals_mapLiterals`, `Stmt.mapLiterals_mapLiterals`).
-/
import Mathlib.Data.List.Basic
import ScriptLang.Bound.Replace
import ScriptLang.Proofs.Variables

namespace ScriptLang.Bound

set_option autoImplicit false

/-! ## Answers -/

/-- Whether an answer about `a` means `a'`, and is there exactly if something changed. -/
structure Rewrites {α : Type} (a : α) (answer : Option α) (a' : α) (changed : Prop) : Prop where
  value : answer.getD a = a'
  owned : answer.isSome = true ↔ changed

namespace Rewrites

variable {α β : Type} {a a' : α} {answer : Option α} {changed : Prop}

theorem kept (a : α) : Rewrites a none a False := ⟨rfl, by simp⟩

theorem of_iff {changed' : Prop} (h : Rewrites a answer a' changed) (same : changed ↔ changed') :
    Rewrites a answer a' changed' :=
  ⟨h.value, h.owned.trans same⟩

theorem map (h : Rewrites a answer a' changed) (f : α → β) :
    Rewrites (f a) (answer.map f) (f a') changed where
  value := by rw [Option.getD_map, h.value]
  owned := by rw [Option.isSome_map, h.owned]

theorem pair {b b' : β} {answer' : Option β} {changed' : Prop}
    (first : Rewrites a answer a' changed) (second : Rewrites b answer' b' changed') :
    Rewrites (a, b) (replaced a answer b answer') (a', b') (changed ∨ changed') := by
  obtain ⟨rfl, owned⟩ := first
  obtain ⟨rfl, owned'⟩ := second
  rw [← owned, ← owned']
  cases answer <;> cases answer' <;> exact ⟨rfl, by simp [replaced]⟩

/-- One more element of a list. -/
theorem copied {before before' : List α} {out : Option (List α)} {started : Prop}
    (list : Rewrites before out before' started) (element : Rewrites a answer a' changed) :
    Rewrites (before ++ [a]) (copied before out a answer) (before' ++ [a'])
      (started ∨ changed) := by
  obtain ⟨rfl, owned⟩ := list
  obtain ⟨rfl, owned'⟩ := element
  rw [← owned, ← owned']
  cases out <;> cases answer <;> exact ⟨rfl, by simp [Bound.copied]⟩

end Rewrites

/-- Replace in the rest of a list, after the elements before it, whatever they are. -/
def copyAll {α : Type} (f : α → Option α) (before : List α) (out : Option (List α)) :
    List α → Option (List α)
  | [] => out
  | a :: as => copyAll f (before ++ [a]) (copied before out a (f a)) as

theorem Expr.replaceAll_eq (rule : Rule) (before : List Expr) (out : Option (List Expr))
    (args : List Expr) :
    Expr.replaceAll rule before out args = copyAll (Expr.replace rule) before out args := by
  induction args generalizing before out with
  | nil => rw [Expr.replaceAll, copyAll]
  | cons e es ih => rw [Expr.replaceAll, copyAll, ih]

theorem Stmt.replaceAll_eq (rule : Rule) (before : List Stmt) (out : Option (List Stmt))
    (body : List Stmt) :
    Stmt.replaceAll rule before out body = copyAll (Stmt.replace rule) before out body := by
  induction body generalizing before out with
  | nil => rw [Stmt.replaceAll, copyAll]
  | cons s ss ih => rw [Stmt.replaceAll, copyAll, ih]

section

variable {α : Type} {f : α → Option α} {g : α → α} {P : α → Prop}

/-- Whichever element is the first to change, none is lost, doubled or moved. -/
theorem Rewrites.copyAll {rest : List α} (each : ∀ a ∈ rest, Rewrites a (f a) (g a) (P a))
    {before before' : List α} {out : Option (List α)} {started : Prop}
    (list : Rewrites before out before' started) :
    Rewrites (before ++ rest) (copyAll f before out rest) (before' ++ rest.map g)
      (started ∨ ∃ a ∈ rest, P a) := by
  induction rest generalizing before before' out started with
  | nil =>
      rw [Bound.copyAll, List.map_nil, List.append_nil, List.append_nil]
      exact list.of_iff (by simp)
  | cons a as ih =>
      rw [List.forall_mem_cons] at each
      have next := ih each.2 (list.copied each.1)
      rw [List.append_assoc, List.append_assoc] at next
      exact next.of_iff (by simp [or_assoc])

theorem Rewrites.list {as : List α} (each : ∀ a ∈ as, Rewrites a (f a) (g a) (P a)) :
    Rewrites as (Bound.copyAll f [] none as) (as.map g) (∃ a ∈ as, P a) := by
  have whole := Rewrites.copyAll each (Rewrites.kept [])
  exact whole.of_iff (by simp)

end

/-! ## Literals -/

mutual

/-- The literals of an expression, from left to right. -/
def Expr.literals : Expr → List Value
  | .literal value => [value]
  | .var _ | .error => []
  | .unary _ operand => operand.literals
  | .binary left _ right => left.literals ++ right.literals
  | .assign _ value => value.literals
  | .call _ args => Expr.literalsOf args
  | .convert _ e => e.literals

def Expr.literalsOf : List Expr → List Value
  | [] => []
  | e :: es => e.literals ++ Expr.literalsOf es

end

mutual

/-- The literals of a statement, from left to right. -/
def Stmt.literals : Stmt → List Value
  | .block body => Stmt.literalsOf body
  | .declare _ init => init.literals
  | .ifThen test yes => test.literals ++ yes.literals
  | .ifElse test yes no => test.literals ++ (yes.literals ++ no.literals)
  | .whileLoop test body => test.literals ++ body.literals
  | .doWhile body test => body.literals ++ test.literals
  | .forTo _ lower upper body => (lower.literals ++ upper.literals) ++ body.literals
  | .expr e => e.literals
  | .branch _ test _ => test.literals
  | .goto _ | .label _ => []

def Stmt.literalsOf : List Stmt → List Value
  | [] => []
  | s :: ss => s.literals ++ Stmt.literalsOf ss

end

mutual

/-- An expression with a function applied to each of its literals. -/
def Expr.mapLiterals (f : Value → Value) : Expr → Expr
  | .literal value => .literal (f value)
  | .unary rule operand => .unary rule (operand.mapLiterals f)
  | .binary left rule right => .binary (left.mapLiterals f) rule (right.mapLiterals f)
  | .var v => .var v
  | .assign v value => .assign v (value.mapLiterals f)
  | .call g args => .call g (Expr.mapLiteralsOf f args)
  | .convert ty e => .convert ty (e.mapLiterals f)
  | .error => .error

def Expr.mapLiteralsOf (f : Value → Value) : List Expr → List Expr
  | [] => []
  | e :: es => e.mapLiterals f :: Expr.mapLiteralsOf f es

end

mutual

/-- A statement with a function applied to each of its literals. -/
def Stmt.mapLiterals (f : Value → Value) : Stmt → Stmt
  | .block body => .block (Stmt.mapLiteralsOf f body)
  | .declare v init => .declare v (init.mapLiterals f)
  | .ifThen test yes => .ifThen (test.mapLiterals f) (yes.mapLiterals f)
  | .ifElse test yes no => .ifElse (test.mapLiterals f) (yes.mapLiterals f) (no.mapLiterals f)
  | .whileLoop test body => .whileLoop (test.mapLiterals f) (body.mapLiterals f)
  | .doWhile body test => .doWhile (body.mapLiterals f) (test.mapLiterals f)
  | .forTo v lower upper body =>
      .forTo v (lower.mapLiterals f) (upper.mapLiterals f) (body.mapLiterals f)
  | .expr e => .expr (e.mapLiterals f)
  | .goto target => .goto target
  | .branch target test when => .branch target (test.mapLiterals f) when
  | .label here => .label here

def Stmt.mapLiteralsOf (f : Value → Value) : List Stmt → List Stmt
  | [] => []
  | s :: ss => s.mapLiterals f :: Stmt.mapLiteralsOf f ss

end

@[simp] theorem Expr.literalsOf_eq_flatMap (args : List Expr) :
    Expr.literalsOf args = args.flatMap Expr.literals := by
  induction args with
  | nil => rfl
  | cons e es ih => rw [Expr.literalsOf, ih, List.flatMap_cons]

@[simp] theorem Stmt.literalsOf_eq_flatMap (body : List Stmt) :
    Stmt.literalsOf body = body.flatMap Stmt.literals := by
  induction body with
  | nil => rfl
  | cons s ss ih => rw [Stmt.literalsOf, ih, List.flatMap_cons]

@[simp] theorem Expr.mapLiteralsOf_eq_map (f : Value → Value) (args : List Expr) :
    Expr.mapLiteralsOf f args = args.map (Expr.mapLiterals f) := by
  induction args with
  | nil => rfl
  | cons e es ih => rw [Expr.mapLiteralsOf, ih, List.map_cons]

@[simp] theorem Stmt.mapLiteralsOf_eq_map (f : Value → Value) (body : List Stmt) :
    Stmt.mapLiteralsOf f body = body.map (Stmt.mapLiterals f) := by
  induction body with
  | nil => rfl
  | cons s ss ih => rw [Stmt.mapLiteralsOf, ih, List.map_cons]

/-! ## What is the same after it -/

section

variable (f g : Value → Value)

theorem flatMap_map_literals {α : Type} {literals : α → List Value} {h : α → α} {as : List α}
    (each : ∀ a ∈ as, literals (h a) = (literals a).map f) :
    (as.map h).flatMap literals = (as.flatMap literals).map f := by
  rw [List.flatMap_map, List.map_flatMap]
  exact List.flatMap_congr each

/-- The literals stay in their order. -/
theorem Expr.literals_mapLiterals (e : Expr) : (e.mapLiterals f).literals = e.literals.map f := by
  induction e using Expr.induction with
  | call h args ih =>
      simp only [Expr.mapLiterals, Expr.literals, Expr.mapLiteralsOf_eq_map,
        Expr.literalsOf_eq_flatMap]
      exact flatMap_map_literals f ih
  | _ => simp_all [Expr.mapLiterals, Expr.literals]

theorem Stmt.literals_mapLiterals (s : Stmt) : (s.mapLiterals f).literals = s.literals.map f := by
  induction s using Stmt.induction with
  | block body ih =>
      simp only [Stmt.mapLiterals, Stmt.literals, Stmt.mapLiteralsOf_eq_map,
        Stmt.literalsOf_eq_flatMap]
      exact flatMap_map_literals f ih
  | _ => simp_all [Stmt.mapLiterals, Stmt.literals, Expr.literals_mapLiterals]

/-- Functions are applied to the literals one after the other. -/
theorem Expr.mapLiterals_mapLiterals (e : Expr) :
    (e.mapLiterals f).mapLiterals g = e.mapLiterals (g ∘ f) := by
  induction e using Expr.induction with
  | call h args ih => simpa [Expr.mapLiterals] using ih
  | _ => simp_all [Expr.mapLiterals]

theorem Stmt.mapLiterals_mapLiterals (s : Stmt) :
    (s.mapLiterals f).mapLiterals g = s.mapLiterals (g ∘ f) := by
  induction s using Stmt.induction with
  | block body ih => simpa [Stmt.mapLiterals] using ih
  | _ => simp_all [Stmt.mapLiterals, Expr.mapLiterals_mapLiterals]

end

/-- A statement without its literals: variables, operators, functions, types, labels and how they
are put together. -/
def Stmt.frame (s : Stmt) : Stmt := s.mapLiterals fun _ => .void

theorem Stmt.frame_mapLiterals (f : Value → Value) (s : Stmt) : (s.mapLiterals f).frame = s.frame :=
  s.mapLiterals_mapLiterals f fun _ => .void

/-! ## Rules for literals -/

/-- The rule that replaces some literals by others. -/
def Rule.literals (f : Value → Option Value) : Rule
  | .literal value => (f value).map .literal
  | _ => .none

/-- What a literal becomes. -/
def become (f : Value → Option Value) (value : Value) : Value := (f value).getD value

theorem mem_literals {α : Type} {literals : α → List Value} {as : List α} {P : Value → Prop} :
    (∃ a ∈ as, ∃ value ∈ literals a, P value) ↔ ∃ value ∈ as.flatMap literals, P value := by
  simp only [List.mem_flatMap]
  constructor
  · rintro ⟨a, member, value, inside, h⟩
    exact ⟨value, ⟨a, member, inside⟩, h⟩
  · rintro ⟨value, ⟨a, member, inside⟩, h⟩
    exact ⟨a, member, value, inside, h⟩

theorem exists_mem_append {xs ys : List Value} {P : Value → Prop} :
    ((∃ value ∈ xs, P value) ∨ ∃ value ∈ ys, P value) ↔ ∃ value ∈ xs ++ ys, P value := by
  simp only [List.mem_append, or_and_right, exists_or]

variable (f : Value → Option Value)

/-- In an expression, a rule for literals does what plain recursion does. -/
theorem Expr.replace_literals (e : Expr) :
    Rewrites e (e.replace (.literals f)) (e.mapLiterals (become f))
      (∃ value ∈ e.literals, (f value).isSome = true) := by
  induction e using Expr.induction with
  | literal value =>
      rw [Expr.replace, Rule.literals, Expr.mapLiterals, become, Expr.literals]
      cases found : f value <;> exact ⟨rfl, by simp [found]⟩
  | unary rule operand ih => exact ih.map (Expr.unary rule)
  | binary left rule right ihLeft ihRight =>
      have both := (ihLeft.pair ihRight).map fun p => Expr.binary p.1 rule p.2
      exact both.of_iff exists_mem_append
  | var v => exact (Rewrites.kept _).of_iff (by simp [Expr.literals])
  | assign v value ih => exact ih.map (Expr.assign v)
  | call g args ih =>
      have all := (Rewrites.list ih).map (Expr.call g)
      rw [← Expr.replaceAll_eq] at all
      rw [Expr.mapLiterals, Expr.mapLiteralsOf_eq_map, Expr.literals, Expr.literalsOf_eq_flatMap]
      exact all.of_iff mem_literals
  | convert ty e ih => exact ih.map (Expr.convert ty)
  | error => exact (Rewrites.kept _).of_iff (by simp [Expr.literals])

/-- In a statement, a rule for literals does what plain recursion does. -/
theorem Stmt.replace_literals (s : Stmt) :
    Rewrites s (s.replace (.literals f)) (s.mapLiterals (become f))
      (∃ value ∈ s.literals, (f value).isSome = true) := by
  induction s using Stmt.induction with
  | block body ih =>
      have all := (Rewrites.list ih).map Stmt.block
      rw [← Stmt.replaceAll_eq] at all
      rw [Stmt.mapLiterals, Stmt.mapLiteralsOf_eq_map, Stmt.literals, Stmt.literalsOf_eq_flatMap]
      exact all.of_iff mem_literals
  | declare v init => exact (init.replace_literals f).map (Stmt.declare v)
  | ifThen test yes ih =>
      have both := ((test.replace_literals f).pair ih).map fun p => Stmt.ifThen p.1 p.2
      exact both.of_iff exists_mem_append
  | ifElse test yes no ihYes ihNo =>
      have branches := (ihYes.pair ihNo).of_iff exists_mem_append
      have all := ((test.replace_literals f).pair branches).map fun p =>
        Stmt.ifElse p.1 p.2.1 p.2.2
      exact all.of_iff exists_mem_append
  | whileLoop test body ih =>
      have both := ((test.replace_literals f).pair ih).map fun p => Stmt.whileLoop p.1 p.2
      exact both.of_iff exists_mem_append
  | doWhile body test ih =>
      have both := (ih.pair (test.replace_literals f)).map fun p => Stmt.doWhile p.1 p.2
      exact both.of_iff exists_mem_append
  | forTo v lower upper body ih =>
      have bounds := ((lower.replace_literals f).pair (upper.replace_literals f)).of_iff
        exists_mem_append
      have all := (bounds.pair ih).map fun p => Stmt.forTo v p.1.1 p.1.2 p.2
      exact all.of_iff exists_mem_append
  | expr e => exact (e.replace_literals f).map Stmt.expr
  | goto target => exact (Rewrites.kept _).of_iff (by simp [Stmt.literals])
  | branch target test when =>
      exact (test.replace_literals f).map fun test => Stmt.branch target test when
  | label here => exact (Rewrites.kept _).of_iff (by simp [Stmt.literals])

/-! ## One integer for another -/

/-- The other integer for the one, and nothing for any other value. -/
def exchange? (old new : Int64) : Value → Option Value
  | .int n => if n = old then some (.int new) else none
  | _ => none

/-- Put one integer in the place of another. -/
def exchange (old new : Int64) : Value → Value
  | .int n => if n = old then .int new else .int n
  | value => value

theorem become_exchange? (old new : Int64) : become (exchange? old new) = exchange old new := by
  funext value
  cases value with
  | int n => by_cases same : n = old <;> simp [become, exchange?, exchange, same]
  | _ => rfl

theorem exchange?_isSome {old new : Int64} {value : Value} :
    (exchange? old new value).isSome = true ↔ value = .int old := by
  cases value with
  | int n => by_cases same : n = old <;> simp [exchange?, same]
  | _ => simp [exchange?]

theorem Rule.integer_eq (old new : Int64) :
    Rule.integer old new = .literals (exchange? old new) := by
  funext e
  cases e with
  | literal value =>
      cases value with
      | int n => by_cases same : n = old <;> simp [Rule.integer, Rule.literals, exchange?, same]
      | _ => rfl
  | _ => rfl

theorem Rule.none_eq : Rule.none = .literals fun _ => .none := by
  funext e
  cases e <;> rfl

/-- Replacing one integer by another gives the tree in which every literal with the integer has been
exchanged and nothing else has changed: the literals are in the same order, and the rest of the tree
is the same.  There is an answer exactly if the tree has such a literal; and the rule that replaces
nothing has no answer for any tree. -/
theorem Stmt.replace_integer (s : Stmt) (old new : Int64) :
    let result := (s.replace (.integer old new)).getD s
    (result = s.mapLiterals (exchange old new) ∧
      result.literals = s.literals.map (exchange old new) ∧ result.frame = s.frame) ∧
    ((s.replace (.integer old new)).isSome = true ↔ Value.int old ∈ s.literals) ∧
    s.replace .none = none := by
  have integer := s.replace_literals (exchange? old new)
  rw [← Rule.integer_eq, become_exchange?] at integer
  have nothing := s.replace_literals fun _ => none
  rw [← Rule.none_eq] at nothing
  refine ⟨⟨integer.value, ?_, ?_⟩, ?_, ?_⟩
  · rw [integer.value, s.literals_mapLiterals]
  · rw [integer.value, s.frame_mapLiterals]
  · simp only [integer.owned, exchange?_isSome, exists_eq_right]
  · simpa using nothing.owned

end ScriptLang.Bound
