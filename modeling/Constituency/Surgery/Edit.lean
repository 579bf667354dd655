import Constituency.Surgery.Operation
import Constituency.Tree.Request

/-!
# Edits around given nodes

What operations do to a tree once their names have been resolved. An edit that a tree does not
admit is refused. Several edits take two or three steps, each of which is a request to the tree; a
refusal does not take back the steps before it, so an edit has to find out what stands against it
before its first step.
-/

namespace Constituency

/-- Why an edit is refused. -/
inductive Refusal where
  | rootWouldMove
  | placeInsideMoved
  | nodeNotAttached
  | targetNotAttached
  | anchorNotAttached
  | rootHasNoSisters
  | childPositionOutOfRange
  | templateEmpty
  | templateWithoutFoot
  | endsNotSisters
  | rootNeedsOneNode
  | notDominated
  | rootWouldNotBeSingle
  /-- The arena has no such node. -/
  | unknownNode
deriving DecidableEq, Repr

/-- The wording of a refusal. -/
def Refusal.message : Refusal → String
  | rootWouldMove => "cannot move the root"
  | placeInsideMoved => "target position is inside the moved subtree"
  | nodeNotAttached => "node is not in the tree"
  | targetNotAttached => "target is not in the tree"
  | anchorNotAttached => "anchor is not in the tree"
  | rootHasNoSisters => "the root has no sisters"
  | childPositionOutOfRange => "child position out of range"
  | templateEmpty => "auxiliary tree is empty"
  | templateWithoutFoot => "auxiliary tree has no foot"
  | endsNotSisters => "span ends are not sisters"
  | rootNeedsOneNode => "the root can only be replaced by a single node"
  | notDominated => "first node does not dominate the second"
  | rootWouldNotBeSingle => "excising the root must leave a single root"
  | unknownNode => "node is not in the arena"

namespace Tree

/-- The children of a node, without one that is about to move. -/
def childrenBut (t : Tree) (id : NodeId) (moving : Option NodeId) : List NodeId :=
  (t.children id).filter fun c => some c != moving

/-- The parent of a node, and the index of the node among its children but one. -/
def sisterIndex (t : Tree) (id : NodeId) (moving : Option NodeId) :
    Except Refusal (NodeId × Nat) :=
  match t.parent id with
  | none => .error .rootHasNoSisters
  | some p =>
    match (t.childrenBut p moving).idxOf? id with
    | none => .error .anchorNotAttached
    | some i => .ok (p, i)

/-- The parent and the child index that a place given by a node stands for, as they will be when a
node that is about to move has left its place. -/
def locate (t : Tree) (place : Place) (anchor : NodeId) (moving : Option NodeId) :
    Except Refusal (NodeId × Nat) :=
  if !t.isAttached anchor then .error .anchorNotAttached
  else
    match place with
    | .leftOf _ => t.sisterIndex anchor moving
    | .rightOf _ => do
      let (p, i) ← t.sisterIndex anchor moving
      return (p, i + 1)
    | .child _ position =>
      let count : Int := (t.childrenBut anchor moving).length
      let index := if position > 0 then position - 1 else count + 1 + position
      if 0 ≤ index && index ≤ count then .ok (anchor, index.toNat)
      else .error .childPositionOutOfRange

/-- Whether a node may move to a place given by another one. -/
def checkMove (t : Tree) (id anchor : NodeId) : Except Refusal Unit :=
  if t.isRoot id then .error .rootWouldMove
  else if anchor == id || t.dominates id anchor then .error .placeInsideMoved
  else .ok ()

/-- Some of the children of a node: those between two indices. -/
structure SisterSpan where
  parent : NodeId
  first : Nat
  last : Nat

/-- The sisters from one node to another, in whichever order they stand. -/
def sistersBetween (t : Tree) (a b : NodeId) : Except Refusal SisterSpan :=
  match t.parent a, t.childIndex a, t.childIndex b with
  | some p, some i, some j =>
    if t.parent b == some p then .ok ⟨p, min i j, max i j⟩ else .error .endsNotSisters
  | _, _, _ => .error .endsNotSisters

end Tree

/-- A change to a tree that may be refused on the way. A refusal keeps the tree as the steps before
it have left it. -/
abbrev Edit := ExceptT Refusal (StateM Tree)

namespace Edit

/-- Carries out a request, unless it names a node that the arena does not have. -/
def perform (r : Tree.Request) : Edit Unit := do
  let (t, answer) := (← get).request r
  set t
  if answer.isNone then throw .unknownNode

/-- Detaches a node. -/
def detach (id : NodeId) : Edit Unit := perform (.detach id)

/-- Changes the label of a node. -/
def relabel (id : NodeId) (l : Label) : Edit Unit := perform (.setLabel id l)

/-- Inserts a node among the children of another. -/
def insert (parent : NodeId) (index : Nat) (id : NodeId) : Edit Unit :=
  perform (.insertChild parent index id)

/-- Makes a list of nodes the children of a node. -/
def replaceChildren (id : NodeId) (cs : List NodeId) : Edit Unit :=
  perform (.replaceChildren id cs)

/-- Detaches nodes one after the other, up to the first that has children. -/
def detachChildless : List NodeId → Edit Unit
  | [] => return
  | id :: ids => do
    if (← get).isLeaf id then
      detach id
      detachChildless ids

/-- Detaches a node, and then every ancestor left without children. -/
def prune (id : NodeId) : Edit Unit := do
  let t ← get
  detach id
  detachChildless (t.ancestors id)

/-- Gives a node a co-index. -/
def coindex (index : Nat) (id : NodeId) : Edit Unit := do
  let t ← get
  relabel id ((t.label id).withCoindex index)

/-- Takes the children of a node from it. -/
def takeChildren (id : NodeId) : Edit (List NodeId) := do
  let t ← get
  replaceChildren id []
  return t.children id

/-- Puts nodes in the place of a node, which becomes detached. The root gives its place to one node
only. -/
def putInPlace (old : NodeId) (nodes : List NodeId) : Edit Unit := do
  let t ← get
  match t.parent old, t.childIndex old with
  | some p, some i =>
    replaceChildren p ((t.children p).take i ++ nodes ++ (t.children p).drop (i + 1))
  | _, _ =>
    if !t.isRoot old then throw .nodeNotAttached
    else
      match nodes with
      | [n] => perform (.setRoot (some n))
      | _ => throw .rootNeedsOneNode

/-- Takes a node from its place and inserts it among the children of another. -/
def move (id parent : NodeId) (index : Nat) : Edit Unit := do
  detach id
  insert parent index id

/-- Puts the children of a node in the place of the node, or of one above it. -/
def excise (top bottom : NodeId) : Edit Unit := do
  let t ← get
  if top != bottom && !t.dominates top bottom then throw .notDominated
  else if !t.isAttached top then throw .nodeNotAttached
  else if t.isRoot top && (t.children bottom).length != 1 then throw .rootWouldNotBeSingle
  else do
    let cs ← takeChildren bottom
    putInPlace top cs

/-- Puts sisters below `foot`, and `root` in their place. -/
def encloseSisters (s : Tree.SisterSpan) (root foot : NodeId) : Edit Unit := do
  let t ← get
  let cs := t.children s.parent
  replaceChildren s.parent (cs.take s.first ++ root :: cs.drop (s.last + 1))
  replaceChildren foot ((cs.drop s.first).take (s.last + 1 - s.first))

/-- Puts a node below `foot`, and `root` in its place. -/
def encloseNode (id root foot : NodeId) : Edit Unit := do
  putInPlace id [root]
  replaceChildren foot [id]

/-- Adjoins the detached tree of `root` with the given foot to a node. -/
def adjoin (target root foot : NodeId) : AdjunctionMode → Edit Unit
  | .root => do
    let cs ← takeChildren target
    replaceChildren foot cs
    putInPlace target [root]
  | .head => do
    let cs ← takeChildren target
    replaceChildren foot cs
    let spine ← takeChildren root
    replaceChildren target spine
  | .foot => do
    putInPlace target [root]
    putInPlace foot [target]

end Edit

end Constituency
