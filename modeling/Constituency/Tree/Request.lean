import Constituency.Tree.Edit

/-!
# Edit requests

A request names its nodes by number. It is carried out only if the arena has all the nodes it
names; otherwise it is refused. A refused request leaves the tree as it was, with one exception:
where the children of a known node are to be replaced by a list with an unknown one, the old
children are unlinked, and no node of the list takes their place, not even those before the unknown
one. A refusal is a fault of whoever asks, and ends a sequence of requests: no answer shows the tree
that is left behind.
-/

namespace Constituency.Tree

/-- One change to a tree. -/
inductive Request where
  | addNode (label : Label)
  | pushChild (parent child : NodeId)
  | insertChild (parent : NodeId) (index : Nat) (child : NodeId)
  | replaceChildren (parent : NodeId) (children : List NodeId)
  | detach (node : NodeId)
  | setRoot (node : Option NodeId)
  | setLabel (node : NodeId) (label : Label)
  | copySubtree (node : NodeId)
  | importSubtree (other : Tree) (node : NodeId)

/-- What a request answers. -/
inductive Answer where
  | done
  | node (id : NodeId)
  | nodes (ids : List NodeId)

/-- Whether the arenas have every node that the request names. -/
def Request.isKnown (t : Tree) : Request → Bool
  | .addNode _ => true
  | .pushChild p c => t.contains p && t.contains c
  | .insertChild p _ c => t.contains p && t.contains c
  | .replaceChildren p cs => t.contains p && cs.all t.contains
  | .detach n => t.contains n
  | .setRoot n => n.all t.contains
  | .setLabel n _ => t.contains n
  | .copySubtree n => t.contains n
  | .importSubtree other n => other.contains n

/-- Carries out a request whose nodes are known. -/
def perform (t : Tree) : Request → Tree × Answer
  | .addNode l => let (t, n) := t.addNode l; (t, .node n)
  | .pushChild p c => let (t, n) := t.pushChild p c; (t, .node n)
  | .insertChild p i c => let (t, n) := t.insertChild p i c; (t, .node n)
  | .replaceChildren p cs => let (t, ns) := t.replaceChildren p cs; (t, .nodes ns)
  | .detach n => (t.detach n, .done)
  | .setRoot n => (t.setRoot n, .done)
  | .setLabel n l => (t.setLabel n l, .done)
  | .copySubtree n => let (t, n) := t.copySubtree n; (t, .node n)
  | .importSubtree other n => let (t, n) := t.importSubtree other n; (t, .node n)

/-- What a refused request leaves behind. Children that are to be replaced are released before the
first new one is looked for; the new ones are neither linked nor copied. -/
def refuse (t : Tree) : Request → Tree
  | .replaceChildren p _ => t.releaseChildren p
  | _ => t

/-- Carries out a request, or refuses it and gives no answer. -/
def request (t : Tree) (r : Request) : Tree × Option Answer :=
  if r.isKnown t then
    let (t, a) := t.perform r
    (t, some a)
  else (t.refuse r, none)

/-- What there is to say about one node. -/
structure Description where
  label : Label
  parent : Option NodeId
  children : List NodeId
  isLeaf : Bool
  isPreterminal : Bool
  isRoot : Bool
  isAttached : Bool
  childIndex : Option Nat
  preorder : List NodeId
  constituent : Constituent

/-- Describes a node of the arena. -/
def describe? (t : Tree) (id : NodeId) : Option Description :=
  if t.contains id then
    some {
      label := t.label id
      parent := t.parent id
      children := t.children id
      isLeaf := t.isLeaf id
      isPreterminal := t.isPreterminal id
      isRoot := t.isRoot id
      isAttached := t.isAttached id
      childIndex := t.childIndex id
      preorder := t.preorder id
      constituent := t.constituent id }
  else none

/-- Whether `a` is a proper ancestor of `b`, if the arena has a node `b`. -/
def dominates? (t : Tree) (a b : NodeId) : Option Bool :=
  if t.contains b then some (t.dominates a b) else none

end Constituency.Tree
