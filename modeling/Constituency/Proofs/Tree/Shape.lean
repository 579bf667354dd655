import Constituency.Proofs.Tree.Preservation

/-!
# Labelled trees and the arenas that show them

`constituent` forgets the numbers of nodes. What it keeps can be read level by level
(`constituent_eq`) and in pre-order (`preorder_constituent`), and a tree that is built from a
labelled tree shows that labelled tree (`whole_ofConstituent`).
-/

namespace Constituency

namespace Tree

variable {t : Tree}

/-- A node shows its label, and below it what its children show. -/
theorem WellFormed.constituent_eq (h : t.WellFormed) (n : NodeId) :
    t.constituent n = .node (t.label n) ((t.children n).map t.constituent) := by
  rw [constituent, h.below_eq, Rose.map, Rose.mapAll_eq_map, List.map_map]
  rfl

theorem preorder_constituent (t : Tree) (n : NodeId) :
    (t.constituent n).preorder = (t.preorder n).map t.label :=
  Rose.preorder_map ..

/-- **A tree built from a labelled tree shows it.** -/
theorem whole_ofConstituent (c : Option Constituent) : (ofConstituent c).whole = c := by
  cases c with
  | none => rfl
  | some c =>
    show some ((ofConstituent (some c)).constituent 0) = some c
    rw [constituent_ofConstituent]

end Tree

end Constituency
