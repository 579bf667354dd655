import Constituency.Label

/-!
# Rose trees

Ordered trees with a value at every node. They are what a bracketed text denotes, and what an arena
shows below one of its nodes, so notions that do not depend on the numbering of nodes are stated
here once.
-/

namespace Constituency

/-- An ordered tree with a value at every node. -/
inductive Rose (α : Type) where
  | node (value : α) (children : List (Rose α))

/-- A labelled tree without node numbers. -/
abbrev Constituent := Rose Label

namespace Rose

variable {α β : Type}

/-- The value at the root. -/
def value : Rose α → α
  | .node a _ => a

/-- The subtrees below the root. -/
def children : Rose α → List (Rose α)
  | .node _ cs => cs

mutual

/-- The number of nodes. -/
def size : Rose α → Nat
  | .node _ cs => sizeAll cs + 1

/-- The number of nodes of several trees. -/
def sizeAll : List (Rose α) → Nat
  | [] => 0
  | r :: rs => r.size + sizeAll rs

end

mutual

/-- The values, each before those below it, left to right. -/
def preorder : Rose α → List α
  | .node a cs => a :: preorderAll cs

/-- The values of several trees, one tree after the other. -/
def preorderAll : List (Rose α) → List α
  | [] => []
  | r :: rs => r.preorder ++ preorderAll rs

end

mutual

/-- The tree with `f` applied to every value. -/
def map (f : α → β) : Rose α → Rose β
  | .node a cs => .node (f a) (mapAll f cs)

/-- Several trees with `f` applied to every value. -/
def mapAll (f : α → β) : List (Rose α) → List (Rose β)
  | [] => []
  | r :: rs => r.map f :: mapAll f rs

end

end Rose

end Constituency
