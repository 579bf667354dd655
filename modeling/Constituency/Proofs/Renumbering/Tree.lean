import Constituency.Pattern.Relation
import Constituency.Proofs.Tree.Order
import Constituency.Proofs.Tree.Shape

/-!
# Renumbered arenas

`Renumbered f k t u` says that the arena of `u` has the nodes of the arena of `t` under the numbers
that `f` gives them. It can have more: of nodes that `f` gives to none nothing is said, so that they
may be linked among each other in any way. Since `f` is a function of all numbers, and not only of
those in use, it also says which numbers the nodes that are added later will have (`fresh`); no
edit has to extend it. The revisions differ by a constant.

What is read at one node is the same in both trees up to `f`. What walks and traversals find is so
too if both arenas are well-formed (`Twins`), although each is bounded by the size of its own arena:
neither bound is ever felt.
-/

namespace Constituency

/-- A node with the numbers in its links changed. -/
def Node.renumber (f : NodeId → NodeId) (n : Node) : Node :=
  ⟨n.label, n.parent.map f, n.children.map f⟩

namespace Rose

variable {α β : Type}

mutual

/-- The values at the top of a tree, down to the first on each path that fails `p`. -/
def through (p : α → Bool) : Rose α → List α
  | .node a rs => a :: if p a then throughAll p rs else []

/-- The values at the tops of several trees. -/
def throughAll (p : α → Bool) : List (Rose α) → List α
  | [] => []
  | r :: rs => r.through p ++ throughAll p rs

end

theorem throughAll_eq_flatMap (p : α → Bool) (rs : List (Rose α)) :
    throughAll p rs = rs.flatMap (through p) := by
  induction rs with
  | nil => rfl
  | cons r rs ih => rw [throughAll, ih, List.flatMap_cons]

mutual

theorem through_map {f : α → β} {p : α → Bool} {q : β → Bool} (hq : ∀ a, q (f a) = p a) :
    ∀ r : Rose α, (r.map f).through q = (r.through p).map f
  | .node a rs => by
    rw [map, through, through, hq, List.map_cons]
    split
    · rw [throughAll_mapAll hq]
    · rfl

theorem throughAll_mapAll {f : α → β} {p : α → Bool} {q : β → Bool} (hq : ∀ a, q (f a) = p a) :
    ∀ rs : List (Rose α), throughAll q (mapAll f rs) = (throughAll p rs).map f
  | [] => rfl
  | r :: rs => by
    rw [mapAll, throughAll, throughAll, through_map hq, throughAll_mapAll hq, List.map_append]

end

end Rose

section list

variable {f : NodeId → NodeId} (hf : Function.Injective f) (ids : List NodeId) (n : NodeId)

include hf

theorem idxOf?_map : (ids.map f).idxOf? (f n) = ids.idxOf? n := by
  unfold List.idxOf?
  rw [List.findIdx?_map]
  congr 1
  funext m
  exact hf.beq_eq

theorem contains_map : (ids.map f).contains (f n) = ids.contains n := by
  rw [Bool.eq_iff_iff, List.contains_iff_mem, List.contains_iff_mem, List.mem_map_of_injective hf]

theorem filter_ne_map : (ids.map f).filter (· != f n) = (ids.filter (· != n)).map f := by
  rw [List.filter_map]
  congr 2
  funext m
  exact congrArg (!·) hf.beq_eq

theorem map_beq_map (o o' : Option NodeId) : (o.map f == o'.map f) = (o == o') :=
  (Option.map_injective hf).beq_eq

end list

namespace Tree

/-! ## Walks are not cut short -/

/-- A walk has no more steps than the rank of the node that it starts from, if every step lowers
the rank. -/
theorem length_walkUpTo_le {next : NodeId → Option NodeId} {rank : NodeId → Nat}
    (hrank : ∀ x y, next x = some y → rank y < rank x) :
    ∀ (k : Nat) (n : NodeId), (walkUpTo next k n).length ≤ rank n
  | 0, n => Nat.zero_le _
  | k + 1, n => by
    rw [walkUpTo]
    cases hn : next n with
    | none => exact Nat.zero_le _
    | some x =>
      have hle := length_walkUpTo_le hrank k x
      exact Nat.lt_of_le_of_lt hle (hrank n x hn)

/-- Every step of a walk leads from a node to its parent, or every step to one of its children. -/
def Follows (t : Tree) (next : NodeId → Option NodeId) : Prop :=
  (∀ x y, next x = some y → t.parent x = some y) ∨ ∀ x y, next x = some y → t.parent y = some x

/-- **A walk over the links needs no more steps than the arena has nodes.** -/
theorem WellFormed.walkUpTo_eq {t : Tree} (h : t.WellFormed) {next : NodeId → Option NodeId}
    (hnext : t.Follows next) {k : Nat} (hk : t.nodes.size ≤ k) (n : NodeId) :
    walkUpTo next k n = t.walk next n := by
  -- on the way up the ancestors become fewer, on the way down there is less left of the arena
  obtain ⟨rank, hrank⟩ : ∃ rank : NodeId → Nat, ∀ x y, next x = some y →
      rank y < rank x ∧ rank x < t.nodes.size := by
    rcases hnext with hup | hdown
    · refine ⟨fun n => (t.ancestors n).length, fun x y hxy => ?_⟩
      have hlt := h.length_ancestors_lt (lt_size_of_parent (hup x y hxy))
      dsimp only
      rw [h.ancestors_of_parent (hup x y hxy), List.length_cons] at hlt ⊢
      omega
    · refine ⟨fun n => t.nodes.size - 1 - (t.ancestors n).length, fun x y hxy => ?_⟩
      have hlt := h.length_ancestors_lt (lt_size_of_parent (hdown x y hxy))
      dsimp only
      rw [h.ancestors_of_parent (hdown x y hxy), List.length_cons] at hlt ⊢
      omega
  induction hk with
  | refl => rfl
  | @step k hk ih =>
    rw [← ih]
    cases hn : next n with
    | none => cases k <;> simp [walkUpTo, hn]
    | some x =>
      have hle := length_walkUpTo_le (fun x y hxy => (hrank x y hxy).1) k n
      have hlt := Nat.lt_of_lt_of_le (hrank n x hn).2 hk
      exact walkUpTo_of_short (Nat.lt_of_le_of_lt hle hlt)

/-! ## Reading at one node -/

/-- The second arena has the nodes of the first under the numbers that `f` gives, and nodes that are
added to both will get such numbers. -/
structure Renumbered (f : NodeId → NodeId) (k : Nat) (t u : Tree) : Prop where
  injective : Function.Injective f
  node : ∀ n, u.nodes[f n]? = t.nodes[n]?.map (Node.renumber f)
  fresh : ∀ i, f (t.nodes.size + i) = u.nodes.size + i
  root : u.root = t.root.map f
  revision : u.revision = t.revision + k

namespace Renumbered

variable {f : NodeId → NodeId} {k : Nat} {t u : Tree}

theorem label (h : Renumbered f k t u) (n : NodeId) : u.label (f n) = t.label n := by
  unfold Tree.label
  rw [h.node]
  cases t.nodes[n]? <;> rfl

theorem parent (h : Renumbered f k t u) (n : NodeId) : u.parent (f n) = (t.parent n).map f := by
  unfold Tree.parent
  rw [h.node]
  cases t.nodes[n]? <;> rfl

theorem children (h : Renumbered f k t u) (n : NodeId) :
    u.children (f n) = (t.children n).map f := by
  unfold Tree.children
  rw [h.node]
  cases t.nodes[n]? <;> rfl

theorem head?_children (h : Renumbered f k t u) (n : NodeId) :
    (u.children (f n)).head? = (t.children n).head?.map f := by
  rw [h.children, List.head?_map]

theorem getLast?_children (h : Renumbered f k t u) (n : NodeId) :
    (u.children (f n)).getLast? = (t.children n).getLast?.map f := by
  rw [h.children, List.getLast?_map]

theorem lt_size_iff (h : Renumbered f k t u) (n : NodeId) :
    f n < u.nodes.size ↔ n < t.nodes.size := by
  rw [← not_iff_not, Nat.not_lt, Nat.not_lt, ← Array.getElem?_eq_none_iff,
    ← Array.getElem?_eq_none_iff, h.node, Option.map_eq_none_iff]

theorem contains (h : Renumbered f k t u) (n : NodeId) : u.contains (f n) = t.contains n := by
  rw [Bool.eq_iff_iff, contains_eq_true, contains_eq_true, h.lt_size_iff]

theorem isRoot (h : Renumbered f k t u) (n : NodeId) : u.isRoot (f n) = t.isRoot n := by
  rw [Tree.isRoot, Tree.isRoot, h.root]
  exact map_beq_map h.injective t.root (some n)

theorem isEmpty (h : Renumbered f k t u) : u.isEmpty = t.isEmpty := by
  rw [Tree.isEmpty, Tree.isEmpty, h.root, Option.isNone_map]

theorem isLeaf (h : Renumbered f k t u) (n : NodeId) : u.isLeaf (f n) = t.isLeaf n := by
  rw [Tree.isLeaf, Tree.isLeaf, h.children, List.isEmpty_map]

theorem isPreterminal (h : Renumbered f k t u) (n : NodeId) :
    u.isPreterminal (f n) = t.isPreterminal n := by
  unfold Tree.isPreterminal
  rw [h.children]
  rcases t.children n with _ | ⟨c, _ | ⟨d, cs⟩⟩
  · rfl
  · exact h.isLeaf c
  · rfl

theorem childIndex (h : Renumbered f k t u) (n : NodeId) :
    u.childIndex (f n) = t.childIndex n := by
  unfold Tree.childIndex
  rw [h.parent]
  cases t.parent n with
  | none => rfl
  | some p =>
    show (u.children (f p)).idxOf? (f n) = (t.children p).idxOf? n
    rw [h.children, idxOf?_map h.injective]

theorem onlyChild? (h : Renumbered f k t u) (n : NodeId) :
    u.onlyChild? (f n) = (t.onlyChild? n).map f := by
  unfold Tree.onlyChild?
  rw [h.children]
  rcases t.children n with _ | ⟨c, _ | ⟨d, cs⟩⟩ <;> rfl

theorem parentIf (h : Renumbered f k t u) {keep keep' : NodeId → NodeId → Bool}
    (hkeep : ∀ p n, keep' (f p) (f n) = keep p n) (n : NodeId) :
    u.parentIf keep' (f n) = (t.parentIf keep n).map f := by
  unfold Tree.parentIf
  rw [h.parent]
  cases t.parent n with
  | none => rfl
  | some p =>
    rw [Option.map_some, Option.filter_some, Option.filter_some, hkeep]
    split <;> rfl

theorem sisters (h : Renumbered f k t u) (n : NodeId) :
    u.sisters (f n) = (t.sisters n).map fun around => (around.1.map f, around.2.map f) := by
  unfold Tree.sisters
  rw [h.parent]
  cases t.parent n with
  | none => rfl
  | some p =>
    show ((u.children (f p)).idxOf? (f n) >>= fun i =>
        some ((u.children (f p)).take i, (u.children (f p)).drop (i + 1))) = _
    rw [h.children, idxOf?_map h.injective]
    show _ = Option.map _ ((t.children p).idxOf? n >>= fun i =>
      some ((t.children p).take i, (t.children p).drop (i + 1)))
    cases (t.children p).idxOf? n with
    | none => rfl
    | some i => simp

end Renumbered

/-! ## Walking and traversing -/

/-- Two well-formed arenas, of which the second has the nodes of the first. -/
structure Twins (f : NodeId → NodeId) (k : Nat) (t u : Tree) : Prop extends Renumbered f k t u where
  source : t.WellFormed
  target : u.WellFormed

namespace Twins

variable {f : NodeId → NodeId} {k : Nat} {t u : Tree}

/-- **Corresponding walks find corresponding nodes.** -/
theorem walk (h : Twins f k t u) {next next' : NodeId → Option NodeId} (hnext : t.Follows next)
    (hnext' : u.Follows next') (heq : ∀ n, next' (f n) = (next n).map f) (n : NodeId) :
    u.walk next' (f n) = (t.walk next n).map f := by
  have hbounded : ∀ m n, walkUpTo next' m (f n) = (walkUpTo next m n).map f := by
    intro m
    induction m with
    | zero => exact fun _ => rfl
    | succ m ih =>
      intro n
      rw [walkUpTo, walkUpTo, heq]
      cases next n with
      | none => rfl
      | some x => rw [Option.map_some, List.map_cons, ← ih]
  -- a bound that neither of the two walks feels
  rw [← h.source.walkUpTo_eq hnext (Nat.le_add_right _ u.nodes.size),
    ← h.target.walkUpTo_eq hnext' (Nat.le_add_left _ t.nodes.size), hbounded]

theorem ancestors (h : Twins f k t u) (n : NodeId) :
    u.ancestors (f n) = (t.ancestors n).map f :=
  h.walk (.inl fun _ _ => id) (.inl fun _ _ => id) h.parent n

theorem summit (h : Twins f k t u) (n : NodeId) : u.summit (f n) = f (t.summit n) := by
  rw [Tree.summit, Tree.summit, h.ancestors, List.getLastD_eq_getLast?,
    List.getLastD_eq_getLast?, List.getLast?_map, Option.getD_map]

theorem isAttached (h : Twins f k t u) (n : NodeId) : u.isAttached (f n) = t.isAttached n := by
  rw [Tree.isAttached, h.summit]
  exact h.isRoot (t.summit n)

theorem dominates (h : Twins f k t u) (a n : NodeId) :
    u.dominates (f a) (f n) = t.dominates a n := by
  rw [Tree.dominates, Tree.dominates, h.ancestors, contains_map h.injective]

/-- **Below corresponding nodes stand corresponding trees.** -/
theorem below (h : Twins f k t u) (n : NodeId) : u.below (f n) = (t.below n).map f := by
  induction n using h.source.down_induction with
  | step n ih =>
    rw [h.target.below_eq, h.source.below_eq, h.children, Rose.map, Rose.mapAll_eq_map,
      List.map_map, List.map_map]
    congr 1
    exact List.map_congr_left ih

theorem preorder (h : Twins f k t u) (n : NodeId) : u.preorder (f n) = (t.preorder n).map f := by
  rw [Tree.preorder, h.below, Rose.preorder_map]
  rfl

theorem constituent (h : Twins f k t u) (n : NodeId) : u.constituent (f n) = t.constituent n := by
  rw [Tree.constituent, h.below, Rose.map_map, Tree.constituent]
  congr 1
  funext m
  exact h.label m

theorem whole (h : Twins f k t u) : u.whole = t.whole := by
  rw [Tree.whole, Tree.whole, h.root, Option.map_map]
  congr 1
  funext n
  exact h.constituent n

theorem attached (h : Twins f k t u) : u.attached = t.attached.map f := by
  unfold Tree.attached
  rw [h.root]
  cases t.root with
  | none => rfl
  | some r => exact h.preorder r

theorem maxCoindex (h : Twins f k t u) (marks : Marks) :
    u.maxCoindex marks = t.maxCoindex marks := by
  have hlabels : ((fun n => (u.label n).coindex marks) ∘ f) =
      fun n => (t.label n).coindex marks := by
    funext n
    rw [Function.comp_apply, h.label]
  rw [Tree.maxCoindex, Tree.maxCoindex, h.attached, List.filterMap_map, hlabels]

theorem along (h : Twins f k t u) : AttachedAlong f t u :=
  ⟨h.attached, fun n _ => h.children n⟩

theorem belowThrough_eq (t : Tree) (p : NodeId → Bool) :
    ∀ (k : Nat) (n : NodeId), t.belowThrough p k n = (t.belowUpTo k n).through p
  | 0, n => by
    rw [Tree.belowThrough, belowUpTo, Rose.through, Rose.throughAll, ite_self]
  | k + 1, n => by
    have hfun : t.belowThrough p k = fun c => (t.belowUpTo k c).through p :=
      funext (belowThrough_eq t p k)
    rw [Tree.belowThrough, belowUpTo, Rose.through, Rose.throughAll_eq_flatMap, List.flatMap_map,
      hfun]

theorem belowThrough (h : Twins f k t u) {p q : NodeId → Bool} (hq : ∀ n, q (f n) = p n)
    (n : NodeId) :
    u.belowThrough q u.nodes.size (f n) = (t.belowThrough p t.nodes.size n).map f := by
  rw [belowThrough_eq, belowThrough_eq]
  show (u.below (f n)).through q = ((t.below n).through p).map f
  rw [h.below, Rose.through_map hq]

end Twins

end Tree

end Constituency
