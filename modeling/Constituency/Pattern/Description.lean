import Constituency.Tree.Basic
import Constituency.Regex.Matching

/-!
# Node descriptions

A description says what one node looks like: a test of its label, which may be negated, and
conditions on its place that are never negated. A label test can refer to the nodes that variables
are bound to.
-/

namespace Constituency

/-- A variable of a pattern. -/
abbrev VarId := Nat

/-- The nodes that the variables of a pattern are bound to. -/
abbrev Bindings := List (Option NodeId)

namespace Bindings

/-- The node a variable is bound to. -/
def node? (b : Bindings) (v : VarId) : Option NodeId := b[v]?.join

/-- The bindings with one variable bound anew. -/
def bind (b : Bindings) (v : VarId) (id : NodeId) : Bindings := b.set v (some id)

/-- No variable bound. -/
def unbound (n : Nat) : Bindings := List.replicate n none

end Bindings

/-- One alternative of a label test. -/
inductive Atom where
  | literal (label : Label)
  /-- The label has a match of the expression somewhere. -/
  | regex (r : Regex)
  /-- The basic category of the label is the given one. -/
  | category (name : String)
deriving BEq

/-- A test of a node against its label or the nodes found so far. -/
inductive LabelTest where
  | any
  | oneOf (atoms : List Atom)
  /-- The node is the one the variable is bound to; an unbound variable allows every node. -/
  | sameNode (v : VarId)
  /-- The label is that of the node the variable is bound to. -/
  | sameLabel (v : VarId)
deriving BEq

/-- A condition on a node's place in the tree. -/
inductive Predicate where
  | leaf
  | preterminal
  | root
deriving BEq, DecidableEq

/-- What one node looks like. The negation belongs to the label test alone. -/
structure Description where
  negated : Bool
  test : LabelTest
  predicates : List Predicate
deriving BEq

/-- Whether a label satisfies one alternative. -/
def Atom.matches (marks : Marks) (l : Label) : Atom → Bool
  | literal s => l == s
  | regex r => r.isMatch l
  | category s => l.category marks == s

/-- Whether a node satisfies a label test. -/
def LabelTest.holds (t : Tree) (marks : Marks) (b : Bindings) (id : NodeId) : LabelTest → Bool
  | any => true
  | oneOf atoms => atoms.any (Atom.matches marks (t.label id))
  | sameNode v => (b.node? v).all (· == id)
  | sameLabel v => (b.node? v).any fun other => t.label other == t.label id

/-- Whether a node satisfies a condition on its place. -/
def Predicate.holds (t : Tree) (id : NodeId) : Predicate → Bool
  | leaf => t.isLeaf id
  | preterminal => t.isPreterminal id
  | root => t.isRoot id

namespace Description

/-- The description that fits every node. -/
def any : Description := ⟨false, .any, []⟩

/-- Whether a node looks as described. -/
def holds (d : Description) (t : Tree) (marks : Marks) (b : Bindings) (id : NodeId) : Bool :=
  d.predicates.all (Predicate.holds t id) && d.test.holds t marks b id != d.negated

end Description

end Constituency
