/-
# ScriptLang.Proofs.Spanning -- ranges in the tree of a text

A text that is read strictly has a tree whose ranges can be trusted
(`Syntax.spans_faithful`).  Every node goes from its first token to its last, its parts
lie inside of it one after the other, the text of a name is the name, and the text of a
literal is read as the literal.  Of a compound assignment only the binary expression
that it is kept as is no node of this kind: it has the range of the whole assignment.

The grammar lays nodes out along the tokens (`Node.Layout`), and the tokens of a text
stand one after the other, so the ranges do too.
-/
import ScriptLang.Proofs.Layout
import ScriptLang.Proofs.Slices

namespace ScriptLang.Syntax

set_option autoImplicit false

/-! ## Tokens in order -/

theorem Ordered.within {offset : Nat} {ts us : List Located} (ordered : Ordered offset us)
    (inside : ts <:+: us) : Ordered offset ts :=
  ⟨ordered.1.sublist inside.sublist, fun t member => ordered.2 t (inside.subset member)⟩

/-- The range of tokens in order holds them all. -/
theorem Spans.bounds {own : List Located} {span : Span} (spans : Spans own span)
    {offset : Nat} (ordered : Ordered offset own) :
    ∀ t ∈ own, span.start ≤ t.span.start ∧ t.span.stop ≤ span.stop := by
  intro t member
  have solid := (ordered.2 t member).2
  constructor
  · obtain ⟨first, found, start⟩ := Option.map_eq_some_iff.1 spans.first
    obtain ⟨rest, rfl⟩ := List.head?_eq_some_iff.1 found
    rcases List.mem_cons.1 member with rfl | later
    · exact start.symm.le
    · have after := (List.pairwise_cons.1 ordered.1).1 t later
      have before := (ordered.2 first List.mem_cons_self).2
      omega
  · obtain ⟨last, found, stop⟩ := Option.map_eq_some_iff.1 spans.last
    obtain ⟨front, rfl⟩ := List.getLast?_eq_some_iff.1 found
    rcases List.mem_append.1 member with earlier | here
    · have after := (List.pairwise_append.1 ordered.1).2.2 t earlier last List.mem_cons_self
      have before := (ordered.2 last (by simp)).2
      omega
    · rw [List.mem_singleton.1 here]
      exact stop.le

/-! ## Literals -/

/-- A literal by itself is one token. -/
theorem Derivation.tokens_of_literal {p : Phrase} (d : Derivation p) {n : Nat}
    (same : p = .operand n) {span : Span} {value : Literal}
    (tree : (same ▸ d).tree = .literal span value) : d.tokens = [⟨value.token, span⟩] := by
  induction d generalizing n with
  | tighter loose e ih =>
      cases same
      exact ih rfl tree
  | literal value span =>
      cases same
      cases tree
      rfl
  | _ => cases same <;> cases tree

theorem eq_of_derives_literal {own : List Located} {span : Span} {value : Literal}
    (derived : Derives .expression own (.literal span value)) : own = [⟨value.token, span⟩] := by
  obtain ⟨d, rfl, tree⟩ := derived
  cases d with
  | operation e => exact e.tokens_of_literal rfl tree
  | assign | compound => cases tree

namespace Node

/-! ## Faithful nodes -/

/-- Whether a node goes from the first to the last of tokens of its own. -/
def Own (tokens : List Located) (n : Node) : Prop :=
  ∃ own, own <:+: tokens ∧ n.DerivedFrom own ∧ Spans own n.span

/-- Whether the text of a name is the name, and the text of a literal is read as the literal. -/
def Reads (text : String) : Node → Prop
  | .name n => n.isMissing = false ∧ ∃ rest, Text.Stands text.toList n.span n.text.toList rest
  | .expr (.literal span value) => ∃ word rest, Text.Stands text.toList span word rest ∧
      tokenize (String.ofList word) = .ok [⟨value.token, ⟨0, Text.width word⟩⟩]
  | _ => True

/-- Whether the ranges of a node and its parts are right. -/
structure Faithful (text : String) (tokens : List Located) (n : Node) : Prop where
  /-- A part has tokens of its own, unless it is what a compound assignment is kept as. -/
  own : ∀ part ∈ n.parts, part.Own tokens ∨ ∃ own, own <:+: tokens ∧ Combines own n part
  inside : ∀ part ∈ n.parts, n.span.start ≤ part.span.start ∧ part.span.stop ≤ n.span.stop
  ordered : n.parts.Pairwise (fun part part' => part.span.stop ≤ part'.span.start) ∨
    ∃ own, ∃ part ∈ n.parts, own <:+: tokens ∧ Combines own n part
  reads : n.Reads text

/-- Whether all nodes in a node are faithful. -/
def Sound (text : String) (n : Node) : Prop :=
  ∀ m, n.Contains m → m.Faithful text (tokensOf text)

theorem Sound.intro {text : String} {n : Node} (faithful : n.Faithful text (tokensOf text))
    (parts : ∀ part ∈ n.parts, part.Sound text) : n.Sound text := by
  intro m contains
  rcases Relation.ReflTransGen.cases_head contains with rfl | ⟨part, member, below⟩
  · exact faithful
  · exact parts part member m below

theorem Sound.part {text : String} {n part : Node} (sound : n.Sound text) (member : part ∈ n.parts) :
    part.Sound text :=
  fun m below => sound m (.head member below)

/-! ## Nodes along tokens in order -/

namespace Layouts

/-- Where a part starts and stops, a token does. -/
theorem ends : {ts : List Located} → {ns : List Node} → Layouts ts ns → ∀ n ∈ ns,
    (∃ t ∈ ts, t.span.start = n.span.start) ∧ ∃ t ∈ ts, t.span.stop = n.span.stop
  | _, _, .nil, _, member => absurd member List.not_mem_nil
  | _, _, .skip _ later, n, member => by
      obtain ⟨⟨t, first, start⟩, t', last, stop⟩ := ends later n member
      exact ⟨⟨t, List.mem_cons_of_mem _ first, start⟩, t', List.mem_cons_of_mem _ last, stop⟩
  | _, _, .part first later, n, member => by
      rcases List.mem_cons.1 member with rfl | member
      · obtain ⟨t, found, start⟩ := Option.map_eq_some_iff.1 first.spans.first
        obtain ⟨t', found', stop⟩ := Option.map_eq_some_iff.1 first.spans.last
        exact ⟨⟨t, List.mem_append_left _ (List.mem_of_head? found), start⟩,
          t', List.mem_append_left _ (List.mem_of_getLast? found'), stop⟩
      · obtain ⟨⟨t, first, start⟩, t', last, stop⟩ := ends later n member
        exact ⟨⟨t, List.mem_append_right _ first, start⟩, t', List.mem_append_right _ last, stop⟩

/-- Parts along tokens in order are in order. -/
theorem pairwise {offset : Nat} : {ts : List Located} → {ns : List Node} → Layouts ts ns →
    Ordered offset ts → ns.Pairwise fun n n' => n.span.stop ≤ n'.span.start
  | _, _, .nil, _ => .nil
  | _, _, .skip t later, ordered => pairwise later (ordered.within (List.suffix_cons t _).isInfix)
  | _, _, .part first later, ordered => by
      refine List.pairwise_cons.2 ⟨fun n member => ?_, ?_⟩
      · obtain ⟨t, found, stop⟩ := Option.map_eq_some_iff.1 first.spans.last
        obtain ⟨⟨t', member', start⟩, -⟩ := later.ends n member
        have apart := (List.pairwise_append.1 ordered.1).2.2 t (List.mem_of_getLast? found)
          t' member'
        rwa [stop, start] at apart
      · exact pairwise later (ordered.within (List.suffix_append _ _).isInfix)

theorem own {tokens : List Located} : {ts : List Located} → {ns : List Node} → Layouts ts ns →
    ts <:+: tokens → ∀ n ∈ ns, n.Own tokens
  | _, _, .nil, _, _, member => absurd member List.not_mem_nil
  | _, _, .skip t later, inside, n, member =>
      own later ((List.suffix_cons t _).isInfix.trans inside) n member
  | _, _, .part first later, inside, n, member => by
      rcases List.mem_cons.1 member with rfl | member
      · exact ⟨_, (List.prefix_append _ _).isInfix.trans inside, first.derived, first.spans⟩
      · exact own later ((List.suffix_append _ _).isInfix.trans inside) n member

end Layouts

theorem reads_of_derived {text : String} {own : List Located} {n : Node}
    (derived : n.DerivedFrom own) (inside : own <:+: tokensOf text) : n.Reads text := by
  cases n with
  | name name =>
      obtain ⟨w, rfl, rfl⟩ := derived
      obtain ⟨word, rest, stands, -, means⟩ :=
        stands_of_mem (inside.subset (List.mem_singleton_self w.token))
      refine ⟨rfl, rest, ?_⟩
      rwa [← means] at stands
  | expr e =>
      cases e with
      | literal span value =>
          rw [eq_of_derives_literal derived] at inside
          obtain ⟨word, rest, stands, longest, means⟩ :=
            stands_of_mem (inside.subset (List.mem_singleton_self _))
          exact ⟨word, rest, stands, tokenize_word longest.toTakes means⟩
      | _ => trivial
  | _ => trivial

/-- A node whose parts are laid out along its tokens is faithful. -/
theorem Layouts.faithful {text : String} {own : List Located} {n : Node}
    (parts : Layouts own n.parts) (spans : Spans own n.span) (inside : own <:+: tokensOf text)
    (reads : n.Reads text) : n.Faithful text (tokensOf text) where
  own := fun part member => .inl (parts.own inside part member)
  inside := by
    intro part member
    have bounds := spans.bounds ((ordered_tokensOf text).within inside)
    obtain ⟨⟨t, first, start⟩, t', last, stop⟩ := parts.ends part member
    exact ⟨start ▸ (bounds t first).1, stop ▸ (bounds t' last).2⟩
  ordered := .inl (parts.pairwise ((ordered_tokensOf text).within inside))
  reads := reads

/-- Of a compound assignment, the target and the binary expression overlap. -/
theorem Combines.faithful {text : String} {own : List Located} {whole inner : Node}
    (combines : Combines own whole inner) (spans : Spans own whole.span)
    (inside : own <:+: tokensOf text) : whole.Faithful text (tokensOf text) := by
  have bounds := spans.bounds ((ordered_tokensOf text).within inside)
  cases combines with
  | @mk target m op listed opSpan rest right value =>
      have combines := Combines.mk target listed opSpan value
      have first : [target.token] <:+: tokensOf text := (List.prefix_append _ _).isInfix.trans inside
      refine ⟨?_, ?_, .inr ⟨_, _, by simp [parts], inside, combines⟩, trivial⟩
      · refine List.forall_mem_cons.2 ⟨.inl ⟨_, first, ⟨target, rfl, rfl⟩, spans_single target.token⟩, ?_⟩
        exact List.forall_mem_singleton.2 (.inr ⟨_, inside, combines⟩)
      · refine List.forall_mem_cons.2 ⟨bounds target.token List.mem_cons_self, ?_⟩
        exact List.forall_mem_singleton.2 ⟨Nat.le_refl _, Nat.le_refl _⟩

mutual

theorem Layout.sound {text : String} : {own : List Located} → {n : Node} → Layout own n →
    own <:+: tokensOf text → n.Sound text
  | _, _, .node derived spans parts, inside =>
      .intro (parts.faithful spans inside (reads_of_derived derived inside))
        (Layouts.sound parts inside)
  | _, _, .compound combines derived spans parts, inside => by
      have sounds := Layouts.sound parts inside
      have whole := combines.faithful spans inside
      cases combines with
      | @mk target m op listed opSpan rest right value =>
          -- the name of the target is also below the left operand
          have left := sounds (.expr (.name target.name)) List.mem_cons_self
          refine .intro whole (List.forall_mem_cons.2 ⟨left.part List.mem_cons_self, ?_⟩)
          exact List.forall_mem_singleton.2 (.intro (parts.faithful spans inside trivial) sounds)

theorem Layouts.sound {text : String} : {ts : List Located} → {ns : List Node} → Layouts ts ns →
    ts <:+: tokensOf text → ∀ n ∈ ns, n.Sound text
  | _, _, .nil, _ => List.forall_mem_nil _
  | _, _, .skip t later, inside =>
      Layouts.sound later ((List.suffix_cons t _).isInfix.trans inside)
  | _, _, .part first later, inside =>
      List.forall_mem_cons.2
        ⟨Layout.sound first ((List.prefix_append _ _).isInfix.trans inside),
          Layouts.sound later ((List.suffix_append _ _).isInfix.trans inside)⟩

end

end Node

/-! ## Trees of texts -/

theorem derives_of_parse {size : Nat} {tokens : List Located} {p : Program}
    (parsed : parse size tokens = .ok p) :
    Derives .statements tokens p.statements ∧ p.eof = .point size := by
  obtain ⟨c, run, done, eof⟩ := parse_eq_ok_iff.1 parsed
  exact ⟨Config.derives_finish? (Config.reads_run? Config.reads_start run) done, eof⟩

theorem parse_of_parseText {text : String} {p : Program} (parsed : parseText text = .ok p) :
    tokenize text = .ok (tokensOf text) ∧ parse text.utf8ByteSize (tokensOf text) = .ok p := by
  unfold parseText at parsed
  split at parsed
  · rename_i tokens read
    cases eq_tokensOf read
    exact ⟨read, parsed⟩
  · cases parsed

/-- In the tree of a text that is read strictly, every node is faithful.  The program is all of the
text, and every other node is a part of some node. -/
theorem spans_faithful (text : String) (p : Program) (parsed : parseText text = .ok p) :
    ∃ tokens, tokenize text = .ok tokens ∧
      ∀ n, (Node.program p).Contains n → n.Faithful text tokens := by
  obtain ⟨read, parsed⟩ := parse_of_parseText parsed
  obtain ⟨⟨d, same, tree⟩, eof⟩ := derives_of_parse parsed
  have parts : Node.Layouts (tokensOf text) (Node.program p).parts := by
    have laid := d.laid
    rw [same, tree] at laid
    exact laid
  refine ⟨tokensOf text, read, Node.Sound.intro ?_ (parts.sound (List.infix_refl _))⟩
  exact {
    own := fun part member => .inl (parts.own (List.infix_refl _) part member)
    inside := by
      intro part member
      obtain ⟨-, t, last, stop⟩ := parts.ends part member
      have good := (tokensOf_good text t last).stop.le_size
      refine ⟨Nat.zero_le _, ?_⟩
      show _ ≤ p.eof.stop
      rw [← stop, eof]
      exact good
    ordered := .inl (parts.pairwise (ordered_tokensOf text))
    reads := trivial }

/-- A declaration and a block with a compound assignment.  The comment between them ends with a
character of two bytes. -/
def scattered : String := "var x : int = 1; // ß\n\x7b x **= f(-x, \"a\\n\") * 2 \x7d"

theorem scattered_faithful :
    ∃ p tokens, parseText scattered = .ok p ∧ tokenize scattered = .ok tokens ∧
      p.statements.map Stmt.span = [⟨0, 15⟩, ⟨23, 49⟩] ∧
      (Node.program p).Faithful scattered tokens ∧
      ∀ s ∈ p.statements, (Node.stmt s).Faithful scattered tokens := by
  have spans : (match parseText scattered with
      | .ok p => p.statements.map Stmt.span
      | .error _ => []) = [⟨0, 15⟩, ⟨23, 49⟩] := by
    decide +kernel
  cases parsed : parseText scattered with
  | error e =>
      rw [parsed] at spans
      cases spans
  | ok p =>
      rw [parsed] at spans
      obtain ⟨tokens, read, faithful⟩ := spans_faithful scattered p parsed
      refine ⟨p, tokens, rfl, read, spans, faithful _ .refl, fun s member => ?_⟩
      exact faithful _ (.single (List.mem_map_of_mem member))

end ScriptLang.Syntax
