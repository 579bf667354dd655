import Constituency.Tree.Basic

/-!
# Indices

An index is made from a tree at one moment and records the order of its attached nodes: their
sequence, their positions in it, the leaves that each of them covers, and which of them carry a
given label. Leaves are counted from the left, starting at 0; the span of a node is the first and
the last leaf it covers.
-/

namespace Constituency

/-- The first and the last leaf that a node covers. -/
structure Span where
  first : Nat
  last : Nat
deriving DecidableEq, Repr

/-- The order of the attached nodes of a tree. -/
structure Index where
  /-- The attached nodes, parents first and left to right. -/
  preorder : List NodeId
  positions : Array (Option Nat)
  spans : Array (Option Span)
  /-- For each label the attached nodes that carried it, in the same order. -/
  labelled : List (Label × List NodeId)

namespace Index

/-- Gives a node the span from its first to its last child. -/
def cover (t : Tree) (spans : Array (Option Span)) (id : NodeId) : Array (Option Span) :=
  match (t.children id).head?, (t.children id).getLast? with
  | some a, some b =>
    match spans[a]?.join, spans[b]?.join with
    | some x, some y => spans.setIfInBounds id (some ⟨x.first, y.last⟩)
    | _, _ => spans
  | _, _ => spans

/-- The spans of the nodes in a sequence in which children follow their parents: leaves in order,
then the other nodes from the end of the sequence to its start. -/
def spansOf (t : Tree) (ids : List NodeId) : Array (Option Span) :=
  let unknown : Array (Option Span) := Array.replicate t.nodes.size none
  let leaves := (ids.filter t.isLeaf).zipIdx.foldl
    (fun spans (id, k) => spans.setIfInBounds id (some ⟨k, k⟩)) unknown
  ids.reverse.foldl (cover t) leaves

/-- Adds a node to those of its label. -/
def record (l : Label) (id : NodeId) : List (Label × List NodeId) → List (Label × List NodeId)
  | [] => [(l, [id])]
  | (k, ids) :: rest => if k == l then (k, ids ++ [id]) :: rest else (k, ids) :: record l id rest

/-- The index of a tree. -/
def build (t : Tree) : Index :=
  let ids := t.attached
  { preorder := ids
    positions := ids.zipIdx.foldl (fun ps (id, k) => ps.setIfInBounds id (some k))
      (Array.replicate t.nodes.size none)
    spans := spansOf t ids
    labelled := ids.foldl (fun labelled id => record (t.label id) id labelled) [] }

/-- The place of a node in the sequence, if it was attached. -/
def position (i : Index) (id : NodeId) : Option Nat := i.positions[id]?.join

/-- The leaves that a node covers, if it was attached. -/
def span (i : Index) (id : NodeId) : Option Span := i.spans[id]?.join

/-- The nodes that carried a label, in the order of the sequence. -/
def withLabel (i : Index) (l : Label) : List NodeId := (i.labelled.lookup l).getD []

/-- Whether a node comes before another one in the sequence, or is that node; what was not attached
comes first. -/
def isBefore (i : Index) (a b : NodeId) : Bool :=
  match i.position a, i.position b with
  | none, _ => true
  | some _, none => false
  | some m, some n => m ≤ n

end Index

end Constituency
