import Constituency.Tree.Basic

/-!
# Editing arena trees

Operations that change a tree. Each keeps the arena a forest: a node that already has a place, or
that would end up below itself, is copied before it is inserted. Copies are laid out at the end of
the arena, parents first and left to right, so that the numbers of the copied nodes are
consecutive.

Every change to the attached part raises the revision; relabelling and work on detached nodes leave
it alone.
-/

namespace Constituency

namespace Rose

mutual

/-- The arena nodes of a labelled tree whose root takes the number `base`. -/
def layout (base : NodeId) (parent : Option NodeId) : Constituent → List Node
  | .node label cs =>
    ⟨label, parent, roots (base + 1) cs⟩ :: layoutAll (base + 1) base cs

/-- The arena nodes of several labelled trees with a common parent. -/
def layoutAll (base parent : NodeId) : List Constituent → List Node
  | [] => []
  | c :: cs => c.layout base (some parent) ++ layoutAll (base + c.size) parent cs

/-- The numbers of the roots of several labelled trees laid out from `base` on. -/
def roots (base : NodeId) : List Constituent → List NodeId
  | [] => []
  | c :: cs => base :: roots (base + c.size) cs

end

end Rose

namespace Tree

/-- Adds a labelled tree to the arena, detached, and gives the number of its root. -/
def graft (t : Tree) (c : Constituent) : Tree × NodeId :=
  ({ t with nodes := t.nodes ++ (c.layout t.nodes.size none).toArray }, t.nodes.size)

/-- The tree whose attached part is a given labelled tree, numbered parents first; `none` stands
for the tree without nodes. Building counts one change for each node. -/
def ofConstituent : Option Constituent → Tree
  | none => empty
  | some c => ⟨(c.layout 0 none).toArray, some 0, c.size⟩

/-- The tree with one node. -/
def singleton (l : Label) : Tree := ⟨#[⟨l, none, []⟩], some 0, 0⟩

/-- Adds a detached node. -/
def addNode (t : Tree) (l : Label) : Tree × NodeId :=
  t.graft (.node l [])

/-- Copies a node with all that is below it; the copy is detached. -/
def copySubtree (t : Tree) (id : NodeId) : Tree × NodeId :=
  t.graft (t.constituent id)

/-- Copies a node of another tree with all that is below it; the copy is detached. -/
def importSubtree (t other : Tree) (id : NodeId) : Tree × NodeId :=
  t.graft (other.constituent id)

/-- Changes the label of a node. -/
def setLabel (t : Tree) (id : NodeId) (l : Label) : Tree :=
  { t with nodes := t.nodes.modify id fun n => { n with label := l } }

/-- Changes the parent link of a node. -/
def setParent (t : Tree) (id : NodeId) (p : Option NodeId) : Tree :=
  { t with nodes := t.nodes.modify id fun n => { n with parent := p } }

/-- Changes the list of children of a node. -/
def setChildren (t : Tree) (id : NodeId) (cs : List NodeId) : Tree :=
  { t with nodes := t.nodes.modify id fun n => { n with children := cs } }

/-- Counts a structural change at a node, if the node is attached. -/
def touch (t : Tree) (id : NodeId) : Tree :=
  if t.isAttached id then { t with revision := t.revision + 1 } else t

/-- Whether `child` cannot itself become a child of `parent`: it has a place already, or it is
`parent` or above it. -/
def mustCopy (t : Tree) (parent child : NodeId) : Bool :=
  (t.parent child).isSome || child == parent || t.isRoot child || t.dominates child parent

/-- A node that can become a child of `parent`: the node itself, or else a copy of it. -/
def available (t : Tree) (parent child : NodeId) : Tree × NodeId :=
  if t.mustCopy parent child then t.copySubtree child else (t, child)

/-- Inserts a node, or a copy where it cannot move, among the children of `parent`. A position
beyond the last child stands for the end. -/
def insertChild (t : Tree) (parent : NodeId) (index : Nat) (child : NodeId) : Tree × NodeId :=
  let (t, child) := t.available parent child
  let siblings := t.children parent
  let t := t.setChildren parent (siblings.insertIdx (min index siblings.length) child)
  ((t.setParent child (some parent)).touch parent, child)

/-- Inserts a node, or a copy where it cannot move, after the children of `parent`. -/
def pushChild (t : Tree) (parent child : NodeId) : Tree × NodeId :=
  t.insertChild parent (t.children parent).length child

/-- Unlinks all children of a node from it. -/
def releaseChildren (t : Tree) (parent : NodeId) : Tree :=
  ((t.children parent).foldl (fun t c => t.setParent c none) t).setChildren parent []

/-- Gives the nodes one after the other `parent` as their parent, copying those that have a place
already, and lists what was placed. -/
def placeAll (t : Tree) (parent : NodeId) (placed : List NodeId) : List NodeId → Tree × List NodeId
  | [] => (t, placed)
  | c :: cs =>
    let (t, c) := if placed.contains c then t.copySubtree c else t.available parent c
    (t.setParent c (some parent)).placeAll parent (placed ++ [c]) cs

/-- Makes a list of nodes the children of `parent`. Former children that are not among them become
detached; a node that occurs twice or has a place elsewhere is copied. -/
def replaceChildren (t : Tree) (parent : NodeId) (cs : List NodeId) : Tree × List NodeId :=
  let (t, placed) := (t.releaseChildren parent).placeAll parent [] cs
  ((t.setChildren parent placed).touch parent, placed)

/-- Takes a node, with all that is below it, from its parent. Detaching the root leaves the tree
without a root. -/
def detach (t : Tree) (id : NodeId) : Tree :=
  match t.parent id with
  | some p =>
    ((t.setChildren p ((t.children p).filter (· != id))).setParent id none).touch p
  | none =>
    if t.isRoot id then { t with root := none, revision := t.revision + 1 } else t

/-- Makes a node the root, taking it from its parent first, or leaves the tree without a root. -/
def setRoot (t : Tree) (id : Option NodeId) : Tree :=
  let t := match id with
    | some id => t.detach id
    | none => t
  { t with root := id, revision := t.revision + 1 }

end Tree

end Constituency
