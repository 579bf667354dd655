import Constituency.Rose

/-!
# Arena trees

The nodes of a tree live in one array and refer to each other by position. A node's identity is
its position: two nodes with equal labels and children are still different nodes. Nodes that the
root does not reach are detached, and stay in the arena.

Reading is total: outside the arena there are nodes without label, parent and children. Upward and
downward walks are bounded by the size of the arena, which no path of a well-formed tree exceeds.
-/

namespace Constituency

/-- The position of a node in the arena. -/
abbrev NodeId := Nat

/-- A node of an arena tree. -/
structure Node where
  label : Label
  parent : Option NodeId
  children : List NodeId
deriving Inhabited, DecidableEq

/-- An ordered labelled tree, with the nodes that were detached from it or not yet attached. -/
structure Tree where
  nodes : Array Node
  root : Option NodeId
  /-- Grows with every change to the structure of the attached part. -/
  revision : Nat
deriving Inhabited

namespace Tree

/-- The tree without nodes. -/
def empty : Tree := ⟨#[], none, 0⟩

/-- The number of nodes in the arena, attached or not. -/
def arenaSize (t : Tree) : Nat := t.nodes.size

/-- Whether the arena has a node of this number. -/
def contains (t : Tree) (id : NodeId) : Bool := id < t.nodes.size

/-- The label of a node. -/
def label (t : Tree) (id : NodeId) : Label :=
  match t.nodes[id]? with
  | some n => n.label
  | none => ""

/-- The parent of a node, if it has one. -/
def parent (t : Tree) (id : NodeId) : Option NodeId :=
  match t.nodes[id]? with
  | some n => n.parent
  | none => none

/-- The children of a node, left to right. -/
def children (t : Tree) (id : NodeId) : List NodeId :=
  match t.nodes[id]? with
  | some n => n.children
  | none => []

/-- Whether the tree has no root. -/
def isEmpty (t : Tree) : Bool := t.root.isNone

/-- Whether a node is the root. -/
def isRoot (t : Tree) (id : NodeId) : Bool := t.root == some id

/-- Whether a node has no children. -/
def isLeaf (t : Tree) (id : NodeId) : Bool := (t.children id).isEmpty

/-- Whether a node's only child is a leaf. -/
def isPreterminal (t : Tree) (id : NodeId) : Bool :=
  match t.children id with
  | [child] => t.isLeaf child
  | _ => false

/-- The position of a node among its parent's children. -/
def childIndex (t : Tree) (id : NodeId) : Option Nat :=
  (t.parent id).bind fun p => (t.children p).idxOf? id

/-- The nodes that repeated steps lead to, at most `n` of them. -/
def walkUpTo (next : NodeId → Option NodeId) : Nat → NodeId → List NodeId
  | 0, _ => []
  | n + 1, id =>
    match next id with
    | none => []
    | some x => x :: walkUpTo next n x

/-- The nodes that repeated steps lead to. No path is longer than the arena is large. -/
def walk (t : Tree) (next : NodeId → Option NodeId) (id : NodeId) : List NodeId :=
  walkUpTo next t.nodes.size id

/-- The ancestors of a node, the nearest first. -/
def ancestors (t : Tree) (id : NodeId) : List NodeId :=
  t.walk t.parent id

/-- The last node on the way up from a node. -/
def summit (t : Tree) (id : NodeId) : NodeId :=
  (t.ancestors id).getLastD id

/-- Whether the root reaches a node. -/
def isAttached (t : Tree) (id : NodeId) : Bool :=
  t.root == some (t.summit id)

/-- Whether `a` is a proper ancestor of `b`. -/
def dominates (t : Tree) (a b : NodeId) : Bool :=
  (t.ancestors b).contains a

/-- The nodes below a node, `n` levels deep. -/
def belowUpTo (t : Tree) : Nat → NodeId → Rose NodeId
  | 0, id => .node id []
  | n + 1, id => .node id ((t.children id).map (t.belowUpTo n))

/-- A node with all that is below it. -/
def below (t : Tree) (id : NodeId) : Rose NodeId :=
  t.belowUpTo t.nodes.size id

/-- A node and all below it, parents first and left to right. -/
def preorder (t : Tree) (id : NodeId) : List NodeId :=
  (t.below id).preorder

/-- The labelled tree that a node roots. -/
def constituent (t : Tree) (id : NodeId) : Constituent :=
  (t.below id).map t.label

/-- The labelled tree of the attached nodes, if there are any. -/
def whole (t : Tree) : Option Constituent :=
  t.root.map t.constituent

/-- The attached nodes, parents first and left to right. -/
def attached (t : Tree) : List NodeId :=
  match t.root with
  | none => []
  | some r => t.preorder r

/-- The attached leaves, left to right. -/
def leaves (t : Tree) : List NodeId :=
  t.attached.filter t.isLeaf

/-- The number of attached nodes. -/
def size (t : Tree) : Nat := t.attached.length

/-- The highest co-index on an attached label, 0 if there is none. -/
def maxCoindex (t : Tree) (marks : Marks) : Nat :=
  (t.attached.filterMap fun id => (t.label id).coindex marks).foldl max 0

end Tree

end Constituency
