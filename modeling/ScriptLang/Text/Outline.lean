/-
# ScriptLang.Text.Outline -- trees of labels, one line a node

An outline is a tree whose nodes carry one line of text.  It is written with a
marker before each label and a rail down from every node that has a later
sibling; the lines stand in preorder.
-/

namespace ScriptLang

set_option autoImplicit false

/-- A label with the outlines under it. -/
inductive Outline where
  | node (label : String) (children : List Outline)

namespace Outline

def label : Outline → String
  | .node label _ => label

def children : Outline → List Outline
  | .node _ children => children

/-- A node without children. -/
def leaf (label : String) : Outline := .node label []

/-- What stands right before a label; a last child has a corner. -/
def marker (isLast : Bool) : String := if isLast then "└── " else "├── "

/-- What the lines under a node add to their indent; a last child leaves no rail. -/
def rail (isLast : Bool) : String := if isLast then "    " else "│   "

mutual

/-- The lines of a node, then `rest`. -/
def linesOf (indent : String) (isLast : Bool) (rest : List String) : Outline → List String
  | .node label children =>
      (indent ++ marker isLast ++ label) :: linesOfAll (indent ++ rail isLast) rest children

/-- The lines of sibling nodes, then `rest`. -/
def linesOfAll (indent : String) (rest : List String) : List Outline → List String
  | [] => rest
  | [child] => linesOf indent true rest child
  | child :: next :: more =>
      linesOf indent false (linesOfAll indent rest (next :: more)) child

end

/-- The lines of a whole outline. -/
def lines (tree : Outline) : List String := linesOf "" true [] tree

/-- The written outline; every line ends in a newline. -/
def render (tree : Outline) : String :=
  tree.lines.foldl (fun text line => (text ++ line) ++ "\n") ""

end Outline

end ScriptLang
