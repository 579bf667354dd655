import Constituency.Proofs.Tree.Leaves

/-!
# What relations between nodes mean

`Relation.Holds` says when two nodes stand in a relation, without saying how the second is found
from the first. It is put together from parent links, lists of children and the numbers of leaves.
A relation upwards is the one downwards, read from the other node, so that every relation has a
converse by definition (`holds_converse`).
-/

namespace Constituency

open Constituency.Tree

namespace Tree

variable (t : Tree)

/-- `c` is the child of `p` with `i` others to its left. -/
def ChildAt (p : NodeId) (i : Nat) (c : NodeId) : Prop := (t.children p)[i]? = some c

/-- `c` is the leftmost child of `p`. -/
def FirstChild (p c : NodeId) : Prop := t.ChildAt p 0 c

/-- `c` is the rightmost child of `p`. -/
def LastChild (p c : NodeId) : Prop := ∃ i, t.ChildAt p i c ∧ i + 1 = (t.children p).length

/-- `p` has the child `c` and no other. -/
def OnlyChild (p c : NodeId) : Prop := t.children p = [c]

/-- `c` is the child of `p` at a position, counted from 1 on the left or from -1 on the right. -/
def NthChild (n : Int) (p c : NodeId) : Prop :=
  ∃ i : Nat, t.ChildAt p i c ∧ (n = i + 1 ∨ n = i - (t.children p).length)

/-- The last leaf of `a` comes before the first leaf of `x`. -/
def Precedes (a x : NodeId) : Prop := ∃ i j, t.LastLeaf a i ∧ t.FirstLeaf x j ∧ i < j

/-- The last leaf of `a` comes directly before the first leaf of `x`. -/
def ImmediatelyPrecedes (a x : NodeId) : Prop :=
  ∃ i j, t.LastLeaf a i ∧ t.FirstLeaf x j ∧ i + 1 = j

/-- `x` is below `a`, and every node between them satisfies `d`. -/
def UnderVia (d : NodeId → Bool) (x a : NodeId) : Prop :=
  t.Under x a ∧ ∀ y, t.Under x y → t.Under y a → d y = true

end Tree

namespace Relation

/-- When two nodes stand in a relation. -/
def Holds (t : Tree) (marks : Marks) (b : Bindings) : Relation → NodeId → NodeId → Prop
  | dominates, a, x => t.Under x a
  | dominatedBy, a, x => t.Under a x
  | parentOf, a, x => t.parent x = some a
  | childOf, a, x => t.parent a = some x
  | firstChild, a, x => t.FirstChild a x
  | lastChild, a, x => t.LastChild a x
  | onlyChild, a, x => t.OnlyChild a x
  | nthChild n, a, x => t.NthChild n a x
  | firstChildOf, a, x => t.FirstChild x a
  | lastChildOf, a, x => t.LastChild x a
  | onlyChildOf, a, x => t.OnlyChild x a
  | nthChildOf n, a, x => t.NthChild n x a
  | leftmostDescendant, a, x => Relation.TransGen t.FirstChild a x
  | rightmostDescendant, a, x => Relation.TransGen t.LastChild a x
  | leftmostDescendantOf, a, x => Relation.TransGen t.FirstChild x a
  | rightmostDescendantOf, a, x => Relation.TransGen t.LastChild x a
  | unaryDominates, a, x => Relation.TransGen t.OnlyChild a x
  | unaryDominatedBy, a, x => Relation.TransGen t.OnlyChild x a
  | dominatesVia d, a, x => t.UnderVia (d.holds t marks b) x a
  | dominatedByVia d, a, x => t.UnderVia (d.holds t marks b) a x
  | sister, a, x => a ≠ x ∧ ∃ p, t.parent a = some p ∧ t.parent x = some p
  | leftSisterOf, a, x => ∃ p i j, t.ChildAt p i a ∧ t.ChildAt p j x ∧ i < j
  | rightSisterOf, a, x => ∃ p i j, t.ChildAt p i a ∧ t.ChildAt p j x ∧ j < i
  | immediateLeftSisterOf, a, x => ∃ p i, t.ChildAt p i a ∧ t.ChildAt p (i + 1) x
  | immediateRightSisterOf, a, x => ∃ p i, t.ChildAt p i x ∧ t.ChildAt p (i + 1) a
  | precedes, a, x => t.Precedes a x
  | immediatelyPrecedes, a, x => t.ImmediatelyPrecedes a x
  | follows, a, x => t.Precedes x a
  | immediatelyFollows, a, x => t.ImmediatelyPrecedes x a
  | equals, a, x => x = a

/-- The relation read from the other node. -/
def converse : Relation → Relation
  | dominates => dominatedBy
  | dominatedBy => dominates
  | parentOf => childOf
  | childOf => parentOf
  | firstChild => firstChildOf
  | lastChild => lastChildOf
  | onlyChild => onlyChildOf
  | nthChild n => nthChildOf n
  | firstChildOf => firstChild
  | lastChildOf => lastChild
  | onlyChildOf => onlyChild
  | nthChildOf n => nthChild n
  | leftmostDescendant => leftmostDescendantOf
  | rightmostDescendant => rightmostDescendantOf
  | leftmostDescendantOf => leftmostDescendant
  | rightmostDescendantOf => rightmostDescendant
  | unaryDominates => unaryDominatedBy
  | unaryDominatedBy => unaryDominates
  | dominatesVia d => dominatedByVia d
  | dominatedByVia d => dominatesVia d
  | sister => sister
  | leftSisterOf => rightSisterOf
  | rightSisterOf => leftSisterOf
  | immediateLeftSisterOf => immediateRightSisterOf
  | immediateRightSisterOf => immediateLeftSisterOf
  | precedes => follows
  | immediatelyPrecedes => immediatelyFollows
  | follows => precedes
  | immediatelyFollows => immediatelyPrecedes
  | equals => equals

/-- Whether the second node of a relation is above the first. -/
def isUpward : Relation → Bool
  | dominatedBy | childOf | firstChildOf | lastChildOf | onlyChildOf | nthChildOf _
  | leftmostDescendantOf | rightmostDescendantOf | unaryDominatedBy | dominatedByVia _ => true
  | _ => false

theorem holds_converse (t : Tree) (marks : Marks) (b : Bindings) (r : Relation) (a x : NodeId) :
    r.converse.Holds t marks b x a ↔ r.Holds t marks b a x := by
  cases r with
  | sister => exact ⟨fun ⟨hne, p, hx, ha⟩ => ⟨Ne.symm hne, p, ha, hx⟩,
      fun ⟨hne, p, ha, hx⟩ => ⟨Ne.symm hne, p, hx, ha⟩⟩
  | leftSisterOf => exact ⟨fun ⟨p, j, i, hx, ha, hlt⟩ => ⟨p, i, j, ha, hx, hlt⟩,
      fun ⟨p, i, j, ha, hx, hlt⟩ => ⟨p, j, i, hx, ha, hlt⟩⟩
  | rightSisterOf => exact ⟨fun ⟨p, j, i, hx, ha, hlt⟩ => ⟨p, i, j, ha, hx, hlt⟩,
      fun ⟨p, i, j, ha, hx, hlt⟩ => ⟨p, j, i, hx, ha, hlt⟩⟩
  | equals => exact eq_comm
  | _ => exact Iff.rfl

end Relation

end Constituency
