import Constituency.Regex.Matching
import Constituency.Surgery.Template
import Constituency.Surgery.Replacement

/-!
# Operations and scripts

A script is a list of operations on named nodes. A name is one that the pattern of a match captures,
or one that a template of an earlier operation declares.
-/

namespace Constituency

/-- Which node survives an adjunction: the root of the template stands for the target, the target
stands for the root, or the target stands for the foot. -/
inductive AdjunctionMode where
  | root
  | head
  | foot
deriving DecidableEq, Repr

/-- What is inserted: a copy of a named node, or a tree made from a template. -/
inductive Operand where
  | copyOf (name : String)
  | made (template : Template)
deriving BEq

/-- Where something is inserted: next to a node, or among its children. Child positions count from
1 on the left and from -1 on the right. -/
inductive Place where
  | leftOf (name : String)
  | rightOf (name : String)
  | child (parent : String) (position : Int)
deriving DecidableEq, Repr

/-- The node that a place is given by. -/
def Place.anchor : Place → String
  | leftOf n => n
  | rightOf n => n
  | child n _ => n

/-- How a label is changed. A label without a match of the expression stays as it is. -/
inductive Relabelling where
  | literal (label : Label)
  | matching (pattern : Regex) (replacement : List ReplacementPart)
deriving BEq

/-- A change of the tree around named nodes. -/
inductive Operation where
  /-- Takes nodes out of the tree. -/
  | delete (names : List String)
  /-- Takes nodes out of the tree, and then their ancestors as long as they have no children. -/
  | prune (names : List String)
  /-- Puts the children of the lower node in the place of the upper one. -/
  | excise (top bottom : String)
  | relabel (name : String) (how : Relabelling)
  | insert (operand : Operand) (place : Place)
  | move (name : String) (place : Place)
  /-- Puts other nodes in the place of a node. -/
  | replace (name : String) (operands : List Operand)
  | adjoin (mode : AdjunctionMode) (template : Template) (target : String)
  /-- Puts sisters, from one to another, below the foot of a template, and it in their place. -/
  | createSubtree (template : Template) (first : String) (last : Option String)
  /-- Gives nodes a co-index that no other node has. -/
  | coindex (names : List String)
  | ifExists (name : String) (negated : Bool) (guarded : Operation)
deriving BEq

namespace Operation

/-- The word that an operation is written with. -/
def keyword : Operation → String
  | delete _ => "delete"
  | prune _ => "prune"
  | excise _ _ => "excise"
  | relabel _ _ => "relabel"
  | insert _ _ => "insert"
  | move _ _ => "move"
  | replace _ _ => "replace"
  | adjoin .root _ _ => "adjoin"
  | adjoin .head _ _ => "adjoinH"
  | adjoin .foot _ _ => "adjoinF"
  | createSubtree _ _ _ => "createSubtree"
  | coindex _ => "coindex"
  | ifExists _ _ _ => "if"

/-- The templates of an operation. -/
def templates : Operation → List Template
  | insert (.made t) _ => [t]
  | replace _ operands => operands.filterMap fun
    | .made t => some t
    | .copyOf _ => none
  | adjoin _ t _ => [t]
  | createSubtree t _ _ => [t]
  | ifExists _ _ o => o.templates
  | _ => []

/-- The names that the templates of an operation declare. -/
def declaredNames (o : Operation) : List String :=
  o.templates.flatMap Template.declaredNames

end Operation

/-- A script as it was read. -/
structure Script where
  source : String
  operations : List Operation
  marks : Marks

end Constituency
