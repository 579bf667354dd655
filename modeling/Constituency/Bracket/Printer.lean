import Constituency.Tree.Basic

/-!
# Writing bracketed notation

A leaf is written as its label, any other node as its label and its children in parentheses, with
one space before each child. The tree without nodes is written `()`.
-/

namespace Constituency

namespace Rose

mutual

/-- The written form of a labelled tree, in front of `k`. -/
def writeOnto (k : List Char) : Constituent → List Char
  | .node l [] => l.toList ++ k
  | .node l (c :: cs) => '(' :: (l.toList ++ writeAllOnto (')' :: k) (c :: cs))

/-- The written forms of several labelled trees, each after a space, in front of `k`. -/
def writeAllOnto (k : List Char) : List Constituent → List Char
  | [] => k
  | c :: cs => ' ' :: c.writeOnto (writeAllOnto k cs)

end

/-- The written form of a labelled tree. -/
def written (c : Constituent) : List Char := c.writeOnto []

/-- The written form of a labelled tree, as a string. -/
def render (c : Constituent) : String := String.ofList c.written

end Rose

/-- The written form of a labelled tree, or of the tree without nodes. -/
def Bracket.render : Option Constituent → String
  | none => "()"
  | some c => c.render

namespace Tree

/-- The written form of the attached part of a tree. -/
def render (t : Tree) : String := Bracket.render t.whole

/-- The written form of a node with all that is below it. -/
def renderAt (t : Tree) (id : NodeId) : String := (t.constituent id).render

end Tree

end Constituency
