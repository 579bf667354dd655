import Constituency.Bracket.Parser

/-!
# Building a tree while its text is read

The nodes of a tree can be made in the order in which the tokens of its text come. An opening
parenthesis adds a node below the innermost open one; an atom gives that node its label or adds a
leaf to it. All of this is done with the edits of arena trees, and only the numbers of the open
nodes are kept beside the tree.
-/

namespace Constituency.Bracket

/-- A tree of which a part has been read. -/
structure Assembly where
  tree : Tree
  /-- The nodes that are still open, innermost first. -/
  opened : List NodeId
  /-- Whether the innermost open node can still get its label. -/
  atLabel : Bool

namespace Assembly

/-- Nothing has been read. -/
def start : Assembly := ⟨.empty, [], false⟩

/-- The tree with one more node, below the innermost open node or else as the root, and the number
of the new node. -/
def addNode (a : Assembly) (l : Label) : Tree × NodeId :=
  let (tree, node) := a.tree.addNode l
  match a.opened with
  | parent :: _ => ((tree.pushChild parent node).1, node)
  | [] => (tree.setRoot (some node), node)

/-- Takes one more token. -/
def step (a : Assembly) (t : Located) : Except ParseError Assembly :=
  if a.opened.isEmpty && !a.tree.isEmpty then .error ⟨t.line, .trailingText⟩
  else
    match t.token, a.opened with
    | .opening, opened =>
      let (tree, node) := a.addNode ""
      .ok ⟨tree, node :: opened, true⟩
    | .closing, [] => .error ⟨t.line, .unbalanced⟩
    | .closing, _ :: rest => .ok ⟨a.tree, rest, false⟩
    | .atom x, [] => .ok { a with tree := (a.addNode (String.ofList x)).1 }
    | .atom x, node :: _ =>
      if a.atLabel then
        .ok { a with tree := a.tree.setLabel node (String.ofList x), atLabel := false }
      else .ok { a with tree := (a.addNode (String.ofList x)).1 }

/-- The tree when the text ends on a given line; empty brackets give the tree without nodes. -/
def result (line : Nat) (a : Assembly) : Except ParseError Tree :=
  if a.opened.isEmpty then
    match a.tree.root with
    | none => .error ⟨line, .noTree⟩
    | some r => .ok (if a.tree.isLeaf r && (a.tree.label r).isEmpty then .empty else a.tree)
  else .error ⟨line, .unclosed a.opened.length⟩

end Assembly

/-- Reads exactly one tree, node by node. -/
def assemble (text : String) : Except ParseError Tree := do
  let a ← (tokens text.toList).foldlM Assembly.step .start
  a.result (lastLine text.toList)

end Constituency.Bracket
