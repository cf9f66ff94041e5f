/-
# ScriptLang.Proofs.Reading -- reading without an error

As long as every token can be taken, a reader does no more than let its
configuration take them (`Config.run?`).  Once a token cannot be taken there is an
error, and it stays: the reader searches for a gap or has an error that reading
went on after (`Reader.Troubled`).

So a program is read without an error exactly if all tokens can be taken and the
text may end after them (`Reader.read_clean_iff`); `parse` gives the statements of
that configuration (`parse_eq_ok_iff`).
-/
import ScriptLang.Syntax.Parse

namespace ScriptLang.Syntax

set_option autoImplicit false

namespace Config

/-- Take tokens one after the other, if all of them can be taken. -/
def run? (c : Config) (ts : List Located) : Option Config := ts.foldlM step? c

@[simp] theorem run?_nil (c : Config) : c.run? [] = some c := rfl

@[simp] theorem run?_cons (c : Config) (t : Located) (ts : List Located) :
    c.run? (t :: ts) = (c.step? t).bind (·.run? ts) := rfl

theorem run?_append (c : Config) (ts us : List Located) :
    c.run? (ts ++ us) = (c.run? ts).bind (·.run? us) :=
  List.foldlM_append

end Config

namespace Reader

/-- Whether a reader has met an error. -/
def Troubled (r : Reader) : Prop := r.errors ≠ [] ∨ ∃ s, r.mode = .searching s

/-- Tokens that can be taken leave no trace but the configuration and the place. -/
theorem foldl_feed_of_run? {r : Reader} {c c' : Config} {ts : List Located}
    (mode : r.mode = .reading c) (taken : c.run? ts = some c') :
    (ts.foldl feed r).mode = .reading c' ∧ (ts.foldl feed r).errors = r.errors := by
  induction ts generalizing r c with
  | nil =>
      cases taken
      exact ⟨mode, rfl⟩
  | cons t ts ih =>
      rw [Config.run?_cons] at taken
      obtain ⟨next, step, taken⟩ := Option.bind_eq_some_iff.1 taken
      have fed : r.feed t = ⟨.reading next, t.span.stop, t.span.stop, r.errors⟩ := by
        unfold feed
        simp only [mode, step]
      rw [List.foldl_cons, fed]
      exact ih rfl taken

theorem troubled_pursue (r : Reader) (s : Search) (t : Located) : (r.pursue s t).Troubled := by
  unfold pursue
  split
  · exact .inl (List.cons_ne_nil _ _)
  · exact .inr ⟨_, rfl⟩

theorem Troubled.feed {r : Reader} (troubled : r.Troubled) (t : Located) : (r.feed t).Troubled := by
  unfold Reader.feed
  split
  · exact troubled_pursue r _ t
  · rename_i c mode
    split
    · rcases troubled with errors | ⟨s, searching⟩
      · exact .inl errors
      · rw [mode] at searching
        cases searching
    · exact troubled_pursue r _ t

theorem Troubled.foldl {r : Reader} (troubled : r.Troubled) (ts : List Located) :
    (ts.foldl Reader.feed r).Troubled := by
  induction ts generalizing r with
  | nil => exact troubled
  | cons t ts ih => exact ih (troubled.feed t)

/-- A token that cannot be taken is an error. -/
theorem troubled_of_run? {r : Reader} {c : Config} {ts : List Located} (mode : r.mode = .reading c)
    (stuck : c.run? ts = none) : (ts.foldl feed r).Troubled := by
  induction ts generalizing r c with
  | nil => cases stuck
  | cons t ts ih =>
      rw [Config.run?_cons] at stuck
      rw [List.foldl_cons]
      cases step : c.step? t with
      | none =>
          refine Troubled.foldl ?_ ts
          unfold feed
          simp only [mode, step]
          exact troubled_pursue r _ t
      | some next =>
          rw [step] at stuck
          refine ih ?_ stuck
          unfold feed
          simp only [mode, step]

/-- Whether a text was read without an error. -/
def Outcome.Clean (o : Outcome) : Prop := o.recovered = [] ∧ o.failure = none

theorem concludeSearch_not_clean (r : Reader) (s : Search) : ¬ (r.concludeSearch s).Clean := by
  unfold concludeSearch Outcome.Clean
  split <;> simp

theorem Troubled.finish {r : Reader} (troubled : r.Troubled) : ¬ r.finish.Clean := by
  unfold Reader.finish
  split
  · exact concludeSearch_not_clean r _
  · rename_i c mode
    split
    · rcases troubled with errors | ⟨s, searching⟩
      · intro clean
        exact errors (List.reverse_eq_nil_iff.1 clean.1)
      · rw [mode] at searching
        cases searching
    · exact concludeSearch_not_clean r _

theorem finish_of_reading {r : Reader} {c : Config} (mode : r.mode = .reading c) (none : r.errors = [])
    {statements : List Stmt} (done : c.finish? = some statements) :
    r.finish = ⟨statements, [], Option.none⟩ := by
  unfold finish
  simp only [mode, done, none, List.reverse_nil]

/-- A text is read without an error exactly if its tokens can be taken and it may end after them. -/
theorem read_clean_iff {ts : List Located} {statements : List Stmt} :
    (read ts).Clean ∧ (read ts).statements = statements ↔
      ∃ c, Config.start.run? ts = some c ∧ c.finish? = some statements := by
  cases taken : Config.start.run? ts with
  | none =>
      have troubled : (ts.foldl feed start).Troubled := troubled_of_run? rfl taken
      constructor
      · rintro ⟨clean, -⟩
        exact absurd clean troubled.finish
      · rintro ⟨c, impossible, -⟩
        cases impossible
  | some c =>
      obtain ⟨mode, errors⟩ := foldl_feed_of_run? (r := start) rfl taken
      cases done : c.finish? with
      | none =>
          constructor
          · rintro ⟨clean, -⟩
            unfold read finish at clean
            simp only [mode, done] at clean
            exact absurd clean (concludeSearch_not_clean _ _)
          · rintro ⟨c', same, done'⟩
            cases same
            rw [done] at done'
            cases done'
      | some found =>
          have finished : read ts = ⟨found, [], none⟩ := finish_of_reading mode errors done
          rw [finished]
          constructor
          · rintro ⟨-, rfl⟩
            exact ⟨c, rfl, done⟩
          · rintro ⟨c', same, done'⟩
            cases same
            rw [done] at done'
            cases done'
            exact ⟨⟨rfl, rfl⟩, rfl⟩

end Reader

theorem parse_eq_ok_iff {size : Nat} {ts : List Located} {p : Program} :
    parse size ts = .ok p ↔
      ∃ c, Config.start.run? ts = some c ∧ c.finish? = some p.statements ∧ p.eof = .point size := by
  have parsed : parse size ts = .ok p ↔
      ((Reader.read ts).Clean ∧ (Reader.read ts).statements = p.statements) ∧
        p.eof = .point size := by
    unfold parse Reader.Outcome.Clean
    cases failure : (Reader.read ts).failure with
    | some e => simp [failure]
    | none =>
        cases recovered : (Reader.read ts).recovered with
        | cons e es => simp [failure, recovered]
        | nil =>
            obtain ⟨statements, eof⟩ := p
            simp [failure, recovered, eq_comm]
  rw [parsed, Reader.read_clean_iff]
  constructor
  · rintro ⟨⟨c, taken, done⟩, eof⟩
    exact ⟨c, taken, done, eof⟩
  · rintro ⟨c, taken, done, eof⟩
    exact ⟨⟨c, taken, done⟩, eof⟩

/-! ## Errors of a text -/

/-- All errors of a text, in the order of its diagnostics. -/
def Reader.Outcome.errors (o : Reader.Outcome) : List SyntaxError := o.recovered ++ o.failure.toList

theorem diagnostics_ofText (text : String) :
    (Tree.ofText text).diagnostics =
      lexicalDiagnostics ⟨text⟩ ++
        (Reader.read (tokensOf text)).errors.map (SyntaxError.diagnostic ⟨text⟩) := rfl

theorem incomplete_ofText (text : String) :
    (Tree.ofText text).incomplete = (Reader.read (tokensOf text)).errors.any SyntaxError.atEnd := rfl

theorem lexicalDiagnostics_eq_nil_iff {text : String} :
    lexicalDiagnostics ⟨text⟩ = [] ↔ ∀ l ∈ Lexeme.all text, l.bad? = none := by
  simp only [lexicalDiagnostics, List.filterMap_eq_nil_iff, Option.map_eq_none_iff]

theorem Reader.Outcome.errors_eq_nil_iff {o : Reader.Outcome} : o.errors = [] ↔ o.Clean := by
  unfold errors Clean
  rw [List.append_eq_nil_iff, Option.toList_eq_nil_iff]

end ScriptLang.Syntax
