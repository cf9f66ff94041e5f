/-
# ScriptLang.Syntax.Reader -- reading on after an error

A reader takes the tokens of a text one by one.  A token that cannot be taken is
an error.  The reader then looks for a gap to fall back to, innermost first: all
that was read after the gap is given up, a missing name is put into it, and the
token is taken after that name.  If no gap allows this the token is dropped and
the search goes on with the next token.

Only a reader that has completed a whole program has no gap to fall back to; it
drops the rest of the text, and the error stands without a tree.
-/
import ScriptLang.Syntax.Config

namespace ScriptLang.Syntax

set_option autoImplicit false

/-- A reader that looks for a gap. -/
structure Search where
  error : SyntaxError
  gaps : List Fallback
  /-- Where what was read before the error stops. -/
  last : Nat
  /-- The tokens dropped so far. -/
  dropped : Option Span

namespace Search

/-- The range of the missing name in a gap: what is given up and what was dropped.  If that is
nothing, the name stands between what was read and the next token, which starts at `next`. -/
def missingSpan (s : Search) (start : Option Nat) (next : Option Nat) : Span :=
  let from_ := start.getD (match s.dropped with
    | some d => d.start
    | none => s.last)
  let stop :=
    match s.dropped with
    | some d => d.stop
    | none => if start.isSome then s.last else next.getD from_
  ⟨from_, stop⟩

/-- The configuration with a missing name in a gap. -/
def fill (s : Search) (f : Fallback) (next : Option Nat) : Config :=
  .operand f.gap (.name (.missing (s.missingSpan f.start next))) none

/-- Fall back to the innermost gap after which a token can be taken, and take it. -/
def resume? (s : Search) (t : Located) : Option Config :=
  s.gaps.findSome? fun f => (s.fill f (some t.span.start)).step? t

/-- Fall back to the innermost gap after which the text may end. -/
def conclude? (s : Search) : Option (List Stmt) :=
  s.gaps.findSome? fun f => (s.fill f none).finish?

/-- Drop a token. -/
def drop (s : Search) (t : Located) : Search :=
  { s with dropped := some ((s.dropped.getD t.span).through t.span) }

end Search

/-- What a reader is doing. -/
inductive Mode where
  | reading (c : Config)
  | searching (s : Search)

/-- A reader between two tokens. -/
structure Reader where
  mode : Mode
  /-- Where the last token that was taken stops. -/
  last : Nat
  /-- Where the last token stops, taken or dropped. -/
  seen : Nat
  /-- The errors after which reading went on, newest first. -/
  errors : List SyntaxError

namespace Reader

/-- A reader before the first token. -/
def start : Reader := ⟨.reading .start, 0, 0, []⟩

/-- The search after an error in a configuration that has settled.  In a list without statements
what was read stops where the next token starts. -/
def search (c : Config) (last : Nat) (next : Option Nat) (error : SyntaxError) : Search :=
  ⟨error, c.fallbacks, if c.isFresh then next.getD last else last, none⟩

/-- Go on with a search: take the token after a fallback, or drop it. -/
def pursue (r : Reader) (s : Search) (t : Located) : Reader :=
  match s.resume? t with
  | some c => ⟨.reading c, t.span.stop, t.span.stop, s.error :: r.errors⟩
  | none => ⟨.searching (s.drop t), r.last, t.span.stop, r.errors⟩

/-- Take the next token. -/
def feed (r : Reader) (t : Located) : Reader :=
  match r.mode with
  | .searching s => r.pursue s t
  | .reading c =>
      match c.step? t with
      | some c => ⟨.reading c, t.span.stop, t.span.stop, r.errors⟩
      | none =>
          let stuck := c.settle (some (.of t.token))
          let error : SyntaxError := ⟨some t.token, t.span, stuck.expected⟩
          r.pursue (search stuck r.last (some t.span.start) error) t

/-- What reading a text gave. -/
structure Outcome where
  statements : List Stmt
  /-- The errors after which reading went on, in order. -/
  recovered : List SyntaxError
  /-- The error that ended reading; there are no statements then. -/
  failure : Option SyntaxError

/-- End a search with the text. -/
def concludeSearch (r : Reader) (s : Search) : Outcome :=
  match s.conclude? with
  | some statements => ⟨statements, (s.error :: r.errors).reverse, none⟩
  | none => ⟨[], r.errors.reverse, some s.error⟩

/-- The end of the text. -/
def finish (r : Reader) : Outcome :=
  match r.mode with
  | .searching s => r.concludeSearch s
  | .reading c =>
      match c.finish? with
      | some statements => ⟨statements, r.errors.reverse, none⟩
      | none =>
          let stuck := c.settle none
          let error : SyntaxError := ⟨none, .point r.seen, stuck.expected⟩
          r.concludeSearch (search stuck r.last none error)

/-- Read a list of tokens. -/
def read (tokens : List Located) : Outcome := (tokens.foldl feed start).finish

end Reader

end ScriptLang.Syntax
