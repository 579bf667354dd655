import Constituency.Proofs.Renumbering.Tree
import Constituency.Search.Solutions

/-!
# What descriptions and relations see of a renumbered arena

A node is described by its label, its place and the nodes that variables are bound to, so that it
fits a description in one tree if the corresponding node fits it in the other under the
corresponding bindings. The candidates of a relation correspond as well, in the order in which they
are tried (`candidates_renumber`): they are found by reading at one node, by a walk or a traversal,
or by going through the index, which lists corresponding nodes in the same order and gives them the
same spans.
-/

namespace Constituency

open Constituency.Tree

/-- The same bindings of corresponding nodes. -/
def Bindings.renumber (f : NodeId → NodeId) (b : Bindings) : Bindings := b.map (Option.map f)

variable {f : NodeId → NodeId} {k : Nat}

namespace Bindings

theorem node?_renumber (f : NodeId → NodeId) (b : Bindings) (v : VarId) :
    (b.renumber f).node? v = (b.node? v).map f := by
  unfold node? renumber
  rw [List.getElem?_map]
  cases b[v]? <;> rfl

theorem renumber_bind (f : NodeId → NodeId) (b : Bindings) (v : VarId) (id : NodeId) :
    (b.renumber f).bind v (f id) = (b.bind v id).renumber f := by
  rw [bind, bind, renumber, renumber, List.map_set, Option.map_some]

theorem renumber_unbound (f : NodeId → NodeId) (n : Nat) :
    (unbound n).renumber f = unbound n := by
  rw [unbound, renumber, List.map_replicate, Option.map_none]

theorem renumber_injective (hf : Function.Injective f) : Function.Injective (renumber f) :=
  List.map_injective_iff.mpr (Option.map_injective hf)

/-- A variable is bound to no other than the given node. -/
theorem all_node?_renumber (hf : Function.Injective f) (b : Bindings) (v : VarId) (id : NodeId) :
    ((b.renumber f).node? v).all (· == f id) = (b.node? v).all (· == id) := by
  rw [node?_renumber, Option.all_map]
  congr 1
  exact funext fun x => hf.beq_eq

end Bindings

/-! ## Descriptions -/

section describe

variable {t u : Tree}

theorem LabelTest.holds_renumber (h : Renumbered f k t u) (marks : Marks) (b : Bindings)
    (id : NodeId) (test : LabelTest) :
    test.holds u marks (b.renumber f) (f id) = test.holds t marks b id := by
  cases test with
  | any => rfl
  | oneOf atoms => rw [LabelTest.holds, LabelTest.holds, h.label]
  | sameNode v => exact b.all_node?_renumber h.injective v id
  | sameLabel v =>
    rw [LabelTest.holds, LabelTest.holds, b.node?_renumber, Option.any_map, h.label]
    congr 1
    exact funext fun x => by rw [h.label]

theorem Predicate.holds_renumber (h : Renumbered f k t u) (id : NodeId) (p : Predicate) :
    p.holds u (f id) = p.holds t id := by
  cases p with
  | leaf => exact h.isLeaf id
  | preterminal => exact h.isPreterminal id
  | root => exact h.isRoot id

/-- **Corresponding nodes look alike.** -/
theorem Description.holds_renumber (h : Renumbered f k t u) (d : Description) (marks : Marks)
    (b : Bindings) (id : NodeId) :
    d.holds u marks (b.renumber f) (f id) = d.holds t marks b id := by
  have hplace : Predicate.holds u (f id) = Predicate.holds t id :=
    funext (Predicate.holds_renumber h id)
  rw [Description.holds, Description.holds, hplace, LabelTest.holds_renumber h]

theorem Description.bindReference_renumber (f : NodeId → NodeId) (d : Description) (b : Bindings)
    (id : NodeId) :
    d.bindReference (b.renumber f) (f id) = (d.bindReference b id).renumber f := by
  unfold Description.bindReference
  split
  · rw [b.node?_renumber, Option.isNone_map, Bindings.renumber_bind]
    split <;> rfl
  · rfl

theorem Bindings.capture_renumber (hf : Function.Injective f) (b : Bindings) (id : NodeId)
    (v : Option VarId) :
    (b.renumber f).capture (f id) v = (b.capture id v).map (Bindings.renumber f) := by
  cases v with
  | none => rfl
  | some v =>
    rw [capture, capture, b.all_node?_renumber hf, renumber_bind]
    split <;> rfl

end describe

/-! ## Scenes -/

/-- Two indices that list corresponding nodes in the same order and with the same spans. -/
structure Index.Renumbered (f : NodeId → NodeId) (i j : Index) : Prop where
  preorder : j.preorder = i.preorder.map f
  span : ∀ n, j.span (f n) = i.span n

theorem Tree.Twins.build {t u : Tree} (h : Twins f k t u) :
    Index.Renumbered f (Index.build t) (Index.build u) :=
  ⟨h.attached, Index.span_along h.along h.source h.target h.injective⟩

/-- Two scenes that a search cannot tell apart. -/
structure Scene.Twins (f : NodeId → NodeId) (k : Nat) (s s' : Scene) : Prop where
  tree : s.tree.Twins f k s'.tree
  index : s.index.Renumbered f s'.index
  marks : s'.marks = s.marks

variable {s s' : Scene}

theorem Scene.Twins.holds (h : s.Twins f k s') (d : Description) (b : Bindings) (id : NodeId) :
    d.holds s'.tree s'.marks (b.renumber f) (f id) = d.holds s.tree s.marks b id := by
  rw [h.marks]
  exact d.holds_renumber h.tree.toRenumbered s.marks b id

theorem Scene.Twins.enter (h : s.Twins f k s') (d : Description) (v : Option VarId) (id : NodeId)
    (b : Bindings) :
    s'.enter d v (f id) (b.renumber f) = (s.enter d v id b).map (Bindings.renumber f) := by
  rw [Scene.enter, Scene.enter, h.holds, d.bindReference_renumber,
    Bindings.capture_renumber h.tree.injective]
  split <;> rfl

/-! ## Candidates -/

theorem nthOf_map (f : NodeId → NodeId) (ids : List NodeId) (n : Int) :
    nthOf (ids.map f) n = (nthOf ids n).map f := by
  unfold nthOf
  rw [List.length_map]
  split
  · exact List.getElem?_map
  · split
    · exact List.getElem?_map
    · rfl

theorem takeThrough_map {p q : NodeId → Bool} (hq : ∀ n, q (f n) = p n) (ids : List NodeId) :
    takeThrough q (ids.map f) = (takeThrough p ids).map f := by
  induction ids with
  | nil => rfl
  | cons n ids ih =>
    rw [List.map_cons, takeThrough, takeThrough, hq, ih]
    split <;> rfl

/-! What is asked of a node among its parent's children has the same answer for corresponding
nodes. -/

namespace Tree.Renumbered

variable {t u : Tree}

theorem isFirst (h : t.Renumbered f k u) (p x : NodeId) :
    ((u.children (f p)).head? == some (f x)) = ((t.children p).head? == some x) := by
  rw [h.head?_children]
  exact map_beq_map h.injective _ (some x)

theorem isLast (h : t.Renumbered f k u) (p x : NodeId) :
    ((u.children (f p)).getLast? == some (f x)) = ((t.children p).getLast? == some x) := by
  rw [h.getLast?_children]
  exact map_beq_map h.injective _ (some x)

theorem isOnly (h : t.Renumbered f k u) (p _x : NodeId) :
    ((u.children (f p)).length == 1) = ((t.children p).length == 1) := by
  rw [h.children, List.length_map]

theorem isNth (h : t.Renumbered f k u) (n : Int) (p x : NodeId) :
    (nthOf (u.children (f p)) n == some (f x)) = (nthOf (t.children p) n == some x) := by
  rw [h.children, nthOf_map]
  exact map_beq_map h.injective _ (some x)

end Tree.Renumbered

section walk

variable {t : Tree}

theorem Tree.follows_parentIf (t : Tree) (keep : NodeId → NodeId → Bool) :
    t.Follows (t.parentIf keep) :=
  .inl fun _ _ hxy => (Option.filter_eq_some_iff.mp hxy).1

/-- A walk that goes on to one of the children. -/
theorem Tree.WellFormed.follows_child (h : t.WellFormed) {next : NodeId → Option NodeId}
    (hnext : ∀ x y, next x = some y → y ∈ t.children x) : t.Follows next :=
  .inr fun x y hxy => (h.mem_children_iff x y).mp (hnext x y hxy)

theorem Tree.WellFormed.follows_head? (h : t.WellFormed) :
    t.Follows fun x => (t.children x).head? :=
  h.follows_child fun _ _ => List.mem_of_mem_head?

theorem Tree.WellFormed.follows_getLast? (h : t.WellFormed) :
    t.Follows fun x => (t.children x).getLast? :=
  h.follows_child fun _ _ => List.mem_of_getLast?

theorem Tree.mem_children_of_onlyChild? {p c : NodeId} (hc : t.onlyChild? p = some c) :
    c ∈ t.children p := by
  unfold onlyChild? at hc
  split at hc
  · rename_i d hd
    rw [hd, Option.some.inj hc]
    exact List.mem_singleton_self _
  · exact absurd hc (by simp)

theorem Tree.WellFormed.follows_onlyChild? (h : t.WellFormed) : t.Follows t.onlyChild? :=
  h.follows_child fun _ _ => mem_children_of_onlyChild?

end walk

namespace Relation

theorem bySpan_renumber {i j : Index} (h : i.Renumbered f j) (id : NodeId)
    (holds : Span → Span → Bool) :
    bySpan j (f id) holds = (bySpan i id holds).map f := by
  unfold bySpan
  rw [h.span]
  cases i.span id with
  | none => rfl
  | some a =>
    dsimp only
    rw [h.preorder, List.filter_map]
    congr 2
    funext other
    exact congrArg (Option.any (holds a)) (h.span other)

/-- **Corresponding nodes have corresponding candidates**, in the same order. -/
theorem candidates_renumber (h : s.Twins f k s') (b : Bindings) (a : NodeId) (r : Relation) :
    r.candidates s' (b.renumber f) (f a) = (r.candidates s b a).map f := by
  have ht := h.tree
  have hwf := ht.source
  have hwf' := ht.target
  -- relations with one candidate at most
  have hone : ∀ {o o' : Option NodeId}, o' = o.map f → o'.toList = o.toList.map f :=
    fun heq => by rw [heq, Option.toList_map]
  cases r with
  | dominates =>
    rw [candidates, candidates, ht.preorder, List.map_drop]
  | dominatedBy => exact ht.ancestors a
  | parentOf => exact ht.children a
  | childOf => exact hone (ht.parent a)
  | firstChild => exact hone (ht.head?_children a)
  | lastChild => exact hone (ht.getLast?_children a)
  | onlyChild => exact hone (ht.onlyChild? a)
  | nthChild n =>
    rw [candidates, candidates, ht.children, nthOf_map, Option.toList_map]
  | firstChildOf => exact hone (ht.parentIf ht.isFirst a)
  | lastChildOf => exact hone (ht.parentIf ht.isLast a)
  | onlyChildOf => exact hone (ht.parentIf ht.isOnly a)
  | nthChildOf n => exact hone (ht.parentIf (ht.isNth n) a)
  | leftmostDescendant =>
    exact ht.walk hwf.follows_head? hwf'.follows_head? ht.head?_children a
  | rightmostDescendant =>
    exact ht.walk hwf.follows_getLast? hwf'.follows_getLast? ht.getLast?_children a
  | leftmostDescendantOf =>
    exact ht.walk (follows_parentIf _ _) (follows_parentIf _ _) (ht.parentIf ht.isFirst) a
  | rightmostDescendantOf =>
    exact ht.walk (follows_parentIf _ _) (follows_parentIf _ _) (ht.parentIf ht.isLast) a
  | unaryDominates =>
    exact ht.walk hwf.follows_onlyChild? hwf'.follows_onlyChild? ht.onlyChild? a
  | unaryDominatedBy =>
    exact ht.walk (follows_parentIf _ _) (follows_parentIf _ _) (ht.parentIf ht.isOnly) a
  | dominatesVia d =>
    rw [candidates, candidates, ht.children, List.flatMap_map, List.map_flatMap]
    congr 1
    exact funext (ht.belowThrough (h.holds d b))
  | dominatedByVia d =>
    rw [candidates, candidates, ht.ancestors, takeThrough_map (h.holds d b)]
  | sister =>
    rw [candidates, candidates, ht.parent]
    cases s.tree.parent a with
    | none => rfl
    | some p =>
      dsimp only [Option.map_some]
      rw [ht.children, contains_map ht.injective, filter_ne_map ht.injective]
      split <;> rfl
  | leftSisterOf =>
    rw [candidates, candidates, ht.sisters]
    cases s.tree.sisters a <;> rfl
  | rightSisterOf =>
    rw [candidates, candidates, ht.sisters]
    cases s.tree.sisters a <;> rfl
  | immediateLeftSisterOf =>
    rw [candidates, candidates, ht.sisters]
    cases s.tree.sisters a with
    | none => rfl
    | some around =>
      show ((around.2.map f).head?).toList = around.2.head?.toList.map f
      rw [List.head?_map, Option.toList_map]
  | immediateRightSisterOf =>
    rw [candidates, candidates, ht.sisters]
    cases s.tree.sisters a with
    | none => rfl
    | some around =>
      show ((around.1.map f).getLast?).toList = around.1.getLast?.toList.map f
      rw [List.getLast?_map, Option.toList_map]
  | precedes => exact bySpan_renumber h.index a _
  | immediatelyPrecedes => exact bySpan_renumber h.index a _
  | follows => exact bySpan_renumber h.index a _
  | immediatelyFollows => exact bySpan_renumber h.index a _
  | equals => rfl

end Relation

end Constituency
