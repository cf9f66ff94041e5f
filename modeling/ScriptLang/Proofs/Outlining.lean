/-
# ScriptLang.Proofs.Outlining -- a written outline can be read back

A line of an outline is an indent of four characters for every level, a marker of four
more, and the label.  No group of an indent starts like a marker, so a line can be taken
apart in one way only (`indent_unique`), whatever the label looks like.  Therefore the
lines give the depth and the label of every node in preorder (`Shows`).

Depths in preorder give the tree: the nodes under a node are those that follow it up to
the next one that is not deeper (`preorder_unique`).  So two outlines that are written
alike are the same, if no label has a newline in it (`render_injective`).
-/
import Mathlib.Data.List.Forall2
import ScriptLang.Text.Outline

namespace ScriptLang

set_option autoImplicit false

/-! ## Texts and lines -/

namespace Text

/-- Whether a text has no newline in it. -/
def OneLine (s : String) : Prop := '\n' ∉ s.toList

instance (s : String) : Decidable (OneLine s) := inferInstanceAs (Decidable ('\n' ∉ s.toList))

theorem oneLine_append {s t : String} : OneLine (s ++ t) ↔ OneLine s ∧ OneLine t := by
  rw [OneLine, String.toList_append, List.mem_append, not_or]
  rfl

/-- Whether a text is made of lines, each with a newline at its end. -/
structure Lines (text : String) (lines : List String) : Prop where
  whole : text.toList = lines.flatMap fun line => line.toList ++ ['\n']
  oneLine : ∀ line ∈ lines, OneLine line

/-- A text can be cut at its first newline in one way only. -/
theorem cut_newline {xs xs' ys ys' : List Char} (plain : '\n' ∉ xs) (plain' : '\n' ∉ xs')
    (same : xs ++ '\n' :: ys = xs' ++ '\n' :: ys') : xs = xs' ∧ ys = ys' := by
  induction xs generalizing xs' with
  | nil =>
      cases xs' with
      | nil => exact ⟨rfl, (List.cons.inj same).2⟩
      | cons c' cs' => exact absurd ((List.cons.inj same).1 ▸ List.mem_cons_self) plain'
  | cons c cs ih =>
      cases xs' with
      | nil => exact absurd ((List.cons.inj same).1 ▸ List.mem_cons_self) plain
      | cons c' cs' =>
          obtain ⟨rfl, later⟩ := List.cons.inj same
          obtain ⟨rfl, rest⟩ := ih (List.not_mem_of_not_mem_cons plain)
            (List.not_mem_of_not_mem_cons plain') later
          exact ⟨rfl, rest⟩

theorem flatMap_newline_inj {lines lines' : List String} (plain : ∀ line ∈ lines, OneLine line)
    (plain' : ∀ line ∈ lines', OneLine line)
    (same : lines.flatMap (fun line => line.toList ++ ['\n']) =
      lines'.flatMap fun line => line.toList ++ ['\n']) : lines = lines' := by
  induction lines generalizing lines' with
  | nil =>
      cases lines' with
      | nil => rfl
      | cons line' rest' => simp at same
  | cons line rest ih =>
      cases lines' with
      | nil => simp at same
      | cons line' rest' =>
          obtain ⟨here, plain⟩ := List.forall_mem_cons.1 plain
          obtain ⟨here', plain'⟩ := List.forall_mem_cons.1 plain'
          simp only [List.flatMap_cons, List.append_assoc, List.singleton_append] at same
          obtain ⟨first, later⟩ := cut_newline here here' same
          rw [String.toList_inj.1 first, ih plain plain' later]

theorem Lines.unique {text : String} {lines lines' : List String} (h : Lines text lines)
    (h' : Lines text lines') : lines = lines' :=
  flatMap_newline_inj h.oneLine h'.oneLine (h.whole.symm.trans h'.whole)

end Text

namespace Outline

mutual

/-- Whether no label of an outline has a newline in it. -/
def OneLine : Outline → Prop
  | .node label children => Text.OneLine label ∧ AllOneLine children

def AllOneLine : List Outline → Prop
  | [] => True
  | child :: children => child.OneLine ∧ AllOneLine children

end

theorem allOneLine_iff {children : List Outline} :
    AllOneLine children ↔ ∀ child ∈ children, child.OneLine := by
  induction children with
  | nil => simp [AllOneLine]
  | cons child children ih => simp [AllOneLine, ih]

theorem oneLine_node {label : String} {children : List Outline} :
    (node label children).OneLine ↔ Text.OneLine label ∧ ∀ child ∈ children, child.OneLine := by
  rw [OneLine, allOneLine_iff]

theorem oneLine_leaf {label : String} : (leaf label).OneLine ↔ Text.OneLine label := by
  simp [leaf, oneLine_node]

/-! ## Indents -/

/-- What stands before the marker of a node: a group for each node above it. -/
def indent : List Bool → String
  | [] => ""
  | isLast :: below => rail isLast ++ indent below

theorem indent_concat (groups : List Bool) (isLast : Bool) :
    indent (groups ++ [isLast]) = indent groups ++ rail isLast := by
  induction groups with
  | nil => simp [indent]
  | cons first rest ih => rw [List.cons_append, indent, ih, indent, String.append_assoc]

theorem toList_rail (isLast : Bool) :
    (rail isLast).toList = (if isLast then ' ' else '│') :: [' ', ' ', ' '] := by
  cases isLast <;> rfl

theorem toList_marker (isLast : Bool) :
    (marker isLast).toList = (if isLast then '└' else '├') :: ['─', '─', ' '] := by
  cases isLast <;> rfl

theorem length_indent (groups : List Bool) : (indent groups).length = 4 * groups.length := by
  induction groups with
  | nil => rfl
  | cons first rest ih =>
      have four : (rail first).length = 4 := by cases first <;> rfl
      rw [indent, String.length_append, ih, four, List.length_cons]
      omega

/-- Indent, marker and label can be told apart. -/
theorem indent_unique {groups groups' : List Bool} {isLast isLast' : Bool} {label label' : String}
    (same : indent groups ++ marker isLast ++ label = indent groups' ++ marker isLast' ++ label') :
    groups = groups' ∧ isLast = isLast' ∧ label = label' := by
  induction groups generalizing groups' with
  | nil =>
      have chars := congrArg String.toList same
      cases groups' with
      | nil =>
          simp only [indent, String.toList_append, toList_marker] at chars
          cases isLast <;> cases isLast' <;> simp [String.toList_inj] at chars ⊢
          · exact chars
          · exact chars
      | cons first rest =>
          simp only [indent, String.toList_append, toList_marker, toList_rail] at chars
          cases isLast <;> cases first <;> simp at chars
  | cons first rest ih =>
      have chars := congrArg String.toList same
      cases groups' with
      | nil =>
          simp only [indent, String.toList_append, toList_marker, toList_rail] at chars
          cases isLast' <;> cases first <;> simp at chars
      | cons first' rest' =>
          have groups : first = first' := by
            simp only [indent, String.toList_append, toList_rail] at chars
            cases first <;> cases first' <;> simp at chars ⊢
          subst groups
          have below : rail first ++ (indent rest ++ marker isLast ++ label) =
              rail first ++ (indent rest' ++ marker isLast' ++ label') := by
            simpa only [indent, String.append_assoc] using same
          obtain ⟨rfl, here⟩ := ih (String.append_right_inj _ |>.1 below)
          exact ⟨rfl, here⟩

/-! ## Lines -/

mutual

/-- The nodes of an outline in the order of their lines, each with its depth and its label. -/
def preorder (depth : Nat) : Outline → List (Nat × String)
  | .node label children => (depth, label) :: preorderAll (depth + 1) children

def preorderAll (depth : Nat) : List Outline → List (Nat × String)
  | [] => []
  | child :: children => preorder depth child ++ preorderAll depth children

end

theorem preorderAll_nil (depth : Nat) : preorderAll depth [] = [] := by rw [preorderAll]

/-- Whether a line is that of a node: the label stands behind a marker and as many groups as the
node is deep, and the line cannot be taken apart in another way. -/
structure Shows (line : String) (node : Nat × String) : Prop where
  written : ∃ groups isLast, line = indent groups ++ marker isLast ++ node.2
  unique : ∀ groups isLast label, line = indent groups ++ marker isLast ++ label →
    groups.length = node.1 ∧ label = node.2

theorem shows_line (groups : List Bool) (isLast : Bool) (label : String) :
    Shows (indent groups ++ marker isLast ++ label) (groups.length, label) where
  written := ⟨groups, isLast, rfl⟩
  unique := by
    intro groups' isLast' label' same
    obtain ⟨rfl, -, rfl⟩ := indent_unique same
    exact ⟨rfl, rfl⟩

theorem Shows.node_eq {line : String} {node node' : Nat × String} (h : Shows line node)
    (h' : Shows line node') : node = node' := by
  obtain ⟨groups, isLast, written⟩ := h.written
  obtain ⟨depth, -⟩ := h.unique groups isLast node.2 written
  obtain ⟨depth', label⟩ := h'.unique groups isLast node.2 written
  exact Prod.ext (depth.symm.trans depth') label

mutual

theorem linesOf_shows (groups : List Bool) (isLast : Bool) (rest : List String) :
    (t : Outline) → ∃ own, linesOf (indent groups) isLast rest t = own ++ rest ∧
      List.Forall₂ Shows own (preorder groups.length t)
  | .node label children => by
      obtain ⟨below, same, shown⟩ := linesOfAll_shows (groups ++ [isLast]) rest children
      rw [List.length_append, List.length_singleton] at shown
      refine ⟨(indent groups ++ marker isLast ++ label) :: below, ?_, ?_⟩
      · rw [linesOf, ← indent_concat, same, List.cons_append]
      · rw [preorder]
        exact .cons (shows_line groups isLast label) shown

theorem linesOfAll_shows (groups : List Bool) (rest : List String) :
    (ts : List Outline) → ∃ own, linesOfAll (indent groups) rest ts = own ++ rest ∧
      List.Forall₂ Shows own (preorderAll groups.length ts)
  | [] => ⟨[], rfl, .nil⟩
  | [child] => by
      obtain ⟨own, same, shown⟩ := linesOf_shows groups true rest child
      refine ⟨own, same, ?_⟩
      rwa [preorderAll, preorderAll_nil, List.append_nil]
  | child :: next :: more => by
      obtain ⟨later, sameLater, shownLater⟩ := linesOfAll_shows groups rest (next :: more)
      obtain ⟨own, same, shown⟩ := linesOf_shows groups false (later ++ rest) child
      refine ⟨own ++ later, ?_, ?_⟩
      · rw [linesOfAll, sameLater, same, List.append_assoc]
      · rw [preorderAll]
        exact List.rel_append shown shownLater

end

theorem lines_shows (t : Outline) : List.Forall₂ Shows t.lines (t.preorder 0) := by
  obtain ⟨own, same, shown⟩ := linesOf_shows [] true [] t
  have lines : t.lines = own := same.trans (List.append_nil own)
  rw [lines]
  exact shown

mutual

theorem preorder_oneLine (depth : Nat) : (t : Outline) → t.OneLine →
    ∀ node ∈ preorder depth t, Text.OneLine node.2
  | .node label children, plain => by
      rw [OneLine] at plain
      rw [preorder]
      exact List.forall_mem_cons.2 ⟨plain.1, preorderAll_oneLine (depth + 1) children plain.2⟩

theorem preorderAll_oneLine (depth : Nat) : (ts : List Outline) → AllOneLine ts →
    ∀ node ∈ preorderAll depth ts, Text.OneLine node.2
  | [], _ => List.forall_mem_nil _
  | child :: children, plain => by
      rw [AllOneLine] at plain
      rw [preorderAll]
      exact List.forall_mem_append.2
        ⟨preorder_oneLine depth child plain.1, preorderAll_oneLine depth children plain.2⟩

end

theorem oneLine_indent (groups : List Bool) : Text.OneLine (indent groups) := by
  induction groups with
  | nil => exact List.not_mem_nil
  | cons first rest ih =>
      have group : Text.OneLine (rail first) := by cases first <;> decide
      exact Text.oneLine_append.2 ⟨group, ih⟩

theorem Shows.oneLine {line : String} {node : Nat × String} (h : Shows line node)
    (plain : Text.OneLine node.2) : Text.OneLine line := by
  obtain ⟨groups, isLast, rfl⟩ := h.written
  have before : Text.OneLine (marker isLast) := by cases isLast <;> decide
  exact Text.oneLine_append.2 ⟨Text.oneLine_append.2 ⟨oneLine_indent groups, before⟩, plain⟩

theorem toList_render (t : Outline) :
    t.render.toList = t.lines.flatMap fun line => line.toList ++ ['\n'] := by
  have written (lines : List String) (text : String) :
      (lines.foldl (fun text line => (text ++ line) ++ "\n") text).toList =
        text.toList ++ lines.flatMap fun line => line.toList ++ ['\n'] := by
    induction lines generalizing text with
    | nil => simp
    | cons line rest ih => simp [ih]
  rw [render, written]
  rfl

/-- The lines of a written outline are one for each node. -/
theorem lines_render {t : Outline} (plain : t.OneLine) : Text.Lines t.render t.lines where
  whole := t.toList_render
  oneLine := by
    intro line member
    obtain ⟨i, bound, rfl⟩ := List.getElem_of_mem member
    have shown := t.lines_shows
    have bound' : i < (t.preorder 0).length := shown.length_eq ▸ bound
    exact (shown.get bound bound').oneLine
      (preorder_oneLine 0 t plain _ (List.getElem_mem bound'))

/-! ## From depths to trees -/

/-- Whether what follows is less deep than `depth`, so that a list of siblings of that depth ends. -/
def Above (depth : Nat) (nodes : List (Nat × String)) : Prop := ∀ node ∈ nodes.head?, node.1 < depth

theorem above_preorderAll {depth : Nat} {ts : List Outline} {rest : List (Nat × String)}
    (above : Above depth rest) : Above (depth + 1) (preorderAll depth ts ++ rest) := by
  cases ts with
  | nil => exact fun node first => Nat.lt_succ_of_lt (above node first)
  | cons t ts =>
      cases t with
      | node label children =>
          rw [preorderAll, preorder]
          rintro node ⟨⟩
          exact Nat.lt_succ_self depth

theorem not_above_cons {depth : Nat} {t : Outline} {ts : List Outline}
    {rest : List (Nat × String)} : ¬ Above depth (preorderAll depth (t :: ts) ++ rest) := by
  cases t with
  | node label children =>
      intro above
      rw [preorderAll, preorder] at above
      exact absurd (above _ rfl) (Nat.lt_irrefl depth)

mutual

theorem preorder_unique {depth : Nat} {rest rest' : List (Nat × String)}
    (above : Above (depth + 1) rest) (above' : Above (depth + 1) rest') :
    (t u : Outline) → preorder depth t ++ rest = preorder depth u ++ rest' → t = u ∧ rest = rest'
  | .node label children, .node label' children', same => by
      rw [preorder, preorder] at same
      obtain ⟨first, later⟩ := List.cons.inj same
      obtain ⟨-, rfl⟩ := Prod.mk.inj first
      obtain ⟨rfl, after⟩ := preorderAll_unique above above' children children' later
      exact ⟨rfl, after⟩

theorem preorderAll_unique {depth : Nat} {rest rest' : List (Nat × String)}
    (above : Above depth rest) (above' : Above depth rest') :
    (ts us : List Outline) → preorderAll depth ts ++ rest = preorderAll depth us ++ rest' →
      ts = us ∧ rest = rest'
  | [], [], same => ⟨rfl, same⟩
  | [], u :: us, same => by
      rw [preorderAll_nil, List.nil_append] at same
      exact absurd (same ▸ above) not_above_cons
  | t :: ts, [], same => by
      rw [preorderAll_nil, List.nil_append] at same
      exact absurd (same ▸ above') not_above_cons
  | t :: ts, u :: us, same => by
      rw [preorderAll, preorderAll, List.append_assoc, List.append_assoc] at same
      obtain ⟨rfl, later⟩ := preorder_unique (above_preorderAll above) (above_preorderAll above')
        t u same
      obtain ⟨rfl, after⟩ := preorderAll_unique above above' ts us later
      exact ⟨rfl, after⟩

end

theorem preorder_injective {t u : Outline} (same : t.preorder 0 = u.preorder 0) : t = u := by
  have nothing : Above 1 [] := nofun
  exact (preorder_unique nothing nothing t u (congrArg (· ++ []) same)).1

theorem render_injective {t u : Outline} (plain : t.OneLine) (plain' : u.OneLine)
    (same : t.render = u.render) : t = u := by
  have lines : t.lines = u.lines := (lines_render plain).unique (same ▸ lines_render plain')
  have unique : Relator.RightUnique Shows := fun _ _ _ => Shows.node_eq
  have nodes : t.preorder 0 = u.preorder 0 :=
    List.right_unique_forall₂' unique t.lines_shows (lines ▸ u.lines_shows)
  exact preorder_injective nodes

end Outline

end ScriptLang
