import Constituency.Tree.Index
import Constituency.Pattern.Description

/-!
# Relations between nodes

A relation is read as `A rel B`, with `A` a node already found. `Relation.candidates` lists every
`B`, in the order in which they are tried: left to right and parents first, or the nearest first on
the way up.
-/

namespace Constituency

/-- A relation between two nodes. -/
inductive Relation where
  /-- A dominates B (`<<`). -/
  | dominates
  /-- A is dominated by B (`>>`). -/
  | dominatedBy
  /-- A is the parent of B (`<`). -/
  | parentOf
  /-- A is a child of B (`>`). -/
  | childOf
  /-- B is the first child of A (`<,`). -/
  | firstChild
  /-- B is the last child of A (`<-`). -/
  | lastChild
  /-- B is the only child of A (`<:`). -/
  | onlyChild
  /-- B is the nth child of A, counted from the right if `n` is negative (`<n`). -/
  | nthChild (n : Int)
  /-- A is the first child of B (`>,`). -/
  | firstChildOf
  /-- A is the last child of B (`>-`). -/
  | lastChildOf
  /-- A is the only child of B (`>:`). -/
  | onlyChildOf
  /-- A is the nth child of B (`>n`). -/
  | nthChildOf (n : Int)
  /-- B is a leftmost descendant of A (`<<,`). -/
  | leftmostDescendant
  /-- B is a rightmost descendant of A (`<<-`). -/
  | rightmostDescendant
  /-- A is a leftmost descendant of B (`>>,`). -/
  | leftmostDescendantOf
  /-- A is a rightmost descendant of B (`>>-`). -/
  | rightmostDescendantOf
  /-- A dominates B, and every node from A to above B has one child (`<<:`). -/
  | unaryDominates
  /-- B dominates A, and every node from B to above A has one child (`>>:`). -/
  | unaryDominatedBy
  /-- A dominates B, and every node between them fits C (`<+(C)`). -/
  | dominatesVia (between : Description)
  /-- B dominates A, and every node between them fits C (`>+(C)`). -/
  | dominatedByVia (between : Description)
  /-- A and B are different children of one node (`$`). -/
  | sister
  /-- A is a sister of B, to its left (`$++`). -/
  | leftSisterOf
  /-- A is a sister of B, to its right (`$--`). -/
  | rightSisterOf
  /-- A is the sister directly to the left of B (`$+`). -/
  | immediateLeftSisterOf
  /-- A is the sister directly to the right of B (`$-`). -/
  | immediateRightSisterOf
  /-- The last leaf of A comes before the first leaf of B (`..`). -/
  | precedes
  /-- The last leaf of A comes directly before the first leaf of B (`.`). -/
  | immediatelyPrecedes
  /-- The first leaf of A comes after the last leaf of B (`,,`). -/
  | follows
  /-- The first leaf of A comes directly after the last leaf of B (`,`). -/
  | immediatelyFollows
  /-- A is B (`==`). -/
  | equals
deriving BEq

/-- A tree to be searched, with its index and the marks of its labels. -/
structure Scene where
  tree : Tree
  index : Index
  marks : Marks

/-- The child at a position, counted from 1 on the left or from -1 on the right. -/
def nthOf (children : List NodeId) (n : Int) : Option NodeId :=
  if n > 0 then children[n.toNat - 1]?
  else if n < 0 && (-n).toNat ≤ children.length then children[children.length - (-n).toNat]?
  else none

/-- The elements up to the first that fails `p`, that one included. -/
def takeThrough {α : Type} (p : α → Bool) : List α → List α
  | [] => []
  | a :: as => if p a then a :: takeThrough p as else [a]

namespace Tree

/-- The sisters to the left and to the right of a node. -/
def sisters (t : Tree) (id : NodeId) : Option (List NodeId × List NodeId) := do
  let p ← t.parent id
  let i ← (t.children p).idxOf? id
  return ((t.children p).take i, (t.children p).drop (i + 1))

/-- The only child of a node that has just one. -/
def onlyChild? (t : Tree) (id : NodeId) : Option NodeId :=
  match t.children id with
  | [c] => some c
  | _ => none

/-- The parent of a node, if the two satisfy a condition. -/
def parentIf (t : Tree) (keep : NodeId → NodeId → Bool) (id : NodeId) : Option NodeId :=
  (t.parent id).filter (keep · id)

/-- A node and all below it that paths of nodes satisfying `p` lead to, `n` levels deep. -/
def belowThrough (t : Tree) (p : NodeId → Bool) : Nat → NodeId → List NodeId
  | 0, id => [id]
  | n + 1, id => id :: if p id then (t.children id).flatMap (t.belowThrough p n) else []

end Tree

namespace Relation

/-- The relation that a token without arguments stands for. -/
def ofToken? : String → Option Relation
  | "<<" => some dominates
  | ">>" => some dominatedBy
  | "<" => some parentOf
  | ">" => some childOf
  | "<," => some firstChild
  | "<-" | "<\x60" => some lastChild
  | "<:" => some onlyChild
  | ">," => some firstChildOf
  | ">-" | ">\x60" => some lastChildOf
  | ">:" => some onlyChildOf
  | "<<," => some leftmostDescendant
  | "<<-" => some rightmostDescendant
  | ">>," => some leftmostDescendantOf
  | ">>-" => some rightmostDescendantOf
  | "<<:" => some unaryDominates
  | ">>:" => some unaryDominatedBy
  | "$" => some sister
  | "$++" | "$.." => some leftSisterOf
  | "$--" | "$,," => some rightSisterOf
  | "$+" | "$." => some immediateLeftSisterOf
  | "$-" | "$," => some immediateRightSisterOf
  | ".." => some precedes
  | "." => some immediatelyPrecedes
  | ",," => some follows
  | "," => some immediatelyFollows
  | "==" => some equals
  | _ => none

/-- The nodes of an index whose spans stand in a relation to that of a given node. -/
def bySpan (i : Index) (id : NodeId) (holds : Span → Span → Bool) : List NodeId :=
  match i.span id with
  | none => []
  | some a => i.preorder.filter fun other => (i.span other).any (holds a)

/-- The nodes `B` such that `A rel B`, in the order in which they are tried. -/
def candidates (s : Scene) (b : Bindings) (a : NodeId) : Relation → List NodeId
  | dominates => (s.tree.preorder a).drop 1
  | dominatedBy => s.tree.ancestors a
  | parentOf => s.tree.children a
  | childOf => (s.tree.parent a).toList
  | firstChild => (s.tree.children a).head?.toList
  | lastChild => (s.tree.children a).getLast?.toList
  | onlyChild => (s.tree.onlyChild? a).toList
  | nthChild n => (nthOf (s.tree.children a) n).toList
  | firstChildOf => (s.tree.parentIf (fun p x => (s.tree.children p).head? == some x) a).toList
  | lastChildOf => (s.tree.parentIf (fun p x => (s.tree.children p).getLast? == some x) a).toList
  | onlyChildOf => (s.tree.parentIf (fun p _ => (s.tree.children p).length == 1) a).toList
  | nthChildOf n => (s.tree.parentIf (fun p x => nthOf (s.tree.children p) n == some x) a).toList
  | leftmostDescendant => s.tree.walk (fun x => (s.tree.children x).head?) a
  | rightmostDescendant => s.tree.walk (fun x => (s.tree.children x).getLast?) a
  | leftmostDescendantOf =>
    s.tree.walk (s.tree.parentIf fun p x => (s.tree.children p).head? == some x) a
  | rightmostDescendantOf =>
    s.tree.walk (s.tree.parentIf fun p x => (s.tree.children p).getLast? == some x) a
  | unaryDominates => s.tree.walk s.tree.onlyChild? a
  | unaryDominatedBy => s.tree.walk (s.tree.parentIf fun p _ => (s.tree.children p).length == 1) a
  | dominatesVia d =>
    (s.tree.children a).flatMap
      (s.tree.belowThrough (d.holds s.tree s.marks b) s.tree.nodes.size)
  | dominatedByVia d => takeThrough (d.holds s.tree s.marks b) (s.tree.ancestors a)
  | sister =>
    match s.tree.parent a with
    | some p => if (s.tree.children p).contains a then (s.tree.children p).filter (· != a) else []
    | none => []
  | leftSisterOf => ((s.tree.sisters a).map (·.2)).getD []
  | rightSisterOf => ((s.tree.sisters a).map (·.1)).getD []
  | immediateLeftSisterOf => ((s.tree.sisters a).bind (·.2.head?)).toList
  | immediateRightSisterOf => ((s.tree.sisters a).bind (·.1.getLast?)).toList
  | precedes => bySpan s.index a fun x y => x.last < y.first
  | immediatelyPrecedes => bySpan s.index a fun x y => x.last + 1 == y.first
  | follows => bySpan s.index a fun x y => y.last < x.first
  | immediatelyFollows => bySpan s.index a fun x y => y.last + 1 == x.first
  | equals => [a]

end Relation

end Constituency
