import Mathlib.Data.List.Nodup
import Constituency.Proofs.Rose
import Constituency.Proofs.Tree.WellFormed

/-!
# Traversals of well-formed arenas

The way down is bounded by the size of the arena as the way up is, and again the
bound is never felt: a node with `d` ancestors has at most `size - d - 1` levels
below it. `preorder_eq` is the equation of the unbounded traversal, and from it
follows what a traversal lists: the node itself and those under it, each once.

A traversal that keeps a stack of the nodes still to be visited (`Visits`) lists
the same nodes in the same order, and comes to its end.
-/

namespace Constituency

/-- Leaving out what gives nothing changes nothing. -/
theorem flatMap_filter_of_nil {α β : Type} {keep : α → Bool} {f : α → List β} (as : List α)
    (h : ∀ a ∈ as, keep a = false → f a = []) : (as.filter keep).flatMap f = as.flatMap f := by
  induction as with
  | nil => rfl
  | cons a as ih =>
    have hrest := ih fun x hx => h x (List.mem_cons_of_mem a hx)
    rw [List.flatMap_cons, ← hrest, List.filter_cons]
    by_cases ha : keep a = true
    · rw [if_pos ha, List.flatMap_cons]
    · rw [if_neg ha, h a (List.mem_cons_self ..) (Bool.eq_false_iff.mpr ha), List.nil_append]

namespace Tree

/-- A traversal with a stack: the first node of the stack is visited and its children take its
place. `Visits t stack ids` says that the traversal ends, and has then visited `ids`. -/
inductive Visits (t : Tree) : List NodeId → List NodeId → Prop where
  | done : Visits t [] []
  | visit {id : NodeId} {stack ids : List NodeId} :
    Visits t (t.children id ++ stack) ids → Visits t (id :: stack) (id :: ids)

namespace WellFormed

variable {t : Tree}

/-! ## The way down is not cut short -/

theorem length_ancestors_lt (h : t.WellFormed) {n : NodeId} (hn : n < t.nodes.size) :
    (t.ancestors n).length < t.nodes.size :=
  h.length_walkUpTo_lt _ hn

theorem belowUpTo_succ (h : t.WellFormed) : ∀ (k : Nat) (n : NodeId), n < t.nodes.size →
    t.nodes.size ≤ k + (t.ancestors n).length + 1 → t.belowUpTo (k + 1) n = t.belowUpTo k n
  | 0, n, hn, hk => by
    have hleaf : t.children n = [] := by
      refine List.eq_nil_iff_forall_not_mem.mpr ?_
      intro c hc
      have hlt := h.length_ancestors_lt (h.child_lt_size hc)
      rw [h.ancestors_of_parent ((h.mem_children_iff n c).mp hc), List.length_cons] at hlt
      omega
    rw [belowUpTo, belowUpTo, hleaf, List.map_nil]
  | k + 1, n, hn, hk => by
    rw [belowUpTo, belowUpTo]
    congr 1
    refine List.map_congr_left ?_
    intro c hc
    refine h.belowUpTo_succ k c (h.child_lt_size hc) ?_
    rw [h.ancestors_of_parent ((h.mem_children_iff n c).mp hc), List.length_cons]
    omega

theorem below_eq (h : t.WellFormed) (n : NodeId) :
    t.below n = .node n ((t.children n).map t.below) := by
  by_cases hn : n < t.nodes.size
  · have hsucc := h.belowUpTo_succ t.nodes.size n hn (by omega)
    rw [below, ← hsucc, belowUpTo]
    rfl
  · rw [children_of_not_contains hn, below]
    cases t.nodes.size with
    | zero => rfl
    | succ k => rw [belowUpTo, children_of_not_contains hn, List.map_nil, List.map_nil]

/-- **The traversal is not cut short**: it visits a node and then traverses its children. -/
theorem preorder_eq (h : t.WellFormed) (n : NodeId) :
    t.preorder n = n :: (t.children n).flatMap t.preorder := by
  rw [preorder, h.below_eq, Rose.preorder, Rose.preorderAll_eq_flatMap, List.flatMap_map]
  rfl

/-- What holds of a node if it holds of its children holds of all nodes. -/
theorem down_induction (h : t.WellFormed) {motive : NodeId → Prop}
    (step : ∀ n, (∀ c ∈ t.children n, motive c) → motive n) (n : NodeId) : motive n := by
  -- what is left of the arena below a node shrinks from level to level
  refine (InvImage.wf (fun n => t.nodes.size - (t.ancestors n).length)
    Nat.lt_wfRel.wf).induction n fun n ih => ?_
  refine step n fun c hc => ih c ?_
  show t.nodes.size - (t.ancestors c).length < t.nodes.size - (t.ancestors n).length
  have hlt := h.length_ancestors_lt (h.child_lt_size hc)
  rw [h.ancestors_of_parent ((h.mem_children_iff n c).mp hc), List.length_cons] at hlt ⊢
  omega

/-! ## What a traversal lists -/

theorem mem_preorder_iff (h : t.WellFormed) {n x : NodeId} :
    x ∈ t.preorder n ↔ t.AtOrUnder x n := by
  induction n using h.down_induction with
  | step n ih =>
    rw [h.preorder_eq, List.mem_cons, List.mem_flatMap, AtOrUnder,
      Relation.ReflTransGen.cases_tail_iff]
    refine or_congr eq_comm ⟨?_, ?_⟩
    · rintro ⟨c, hc, hx⟩
      exact ⟨c, (ih c hc).mp hx, (h.mem_children_iff n c).mp hc⟩
    · rintro ⟨c, hx, hc⟩
      have hc := (h.mem_children_iff n c).mpr hc
      exact ⟨c, hc, (ih c hc).mpr hx⟩

/-- The nodes after the first are those that the first dominates. -/
theorem mem_preorder_tail_iff (h : t.WellFormed) {n x : NodeId} :
    x ∈ (t.preorder n).tail ↔ t.Under x n := by
  rw [h.preorder_eq, List.tail_cons, List.mem_flatMap, Under, Relation.TransGen.tail'_iff]
  refine exists_congr ?_
  intro c
  rw [h.mem_children_iff, h.mem_preorder_iff, and_comm]

/-- Of two nodes above one node, one is above the other. -/
theorem nested_of_atOrUnder {x a b : NodeId} (hxa : t.AtOrUnder x a) (hxb : t.AtOrUnder x b) :
    t.AtOrUnder a b ∨ t.AtOrUnder b a := by
  have hunique : Relator.RightUnique t.Link := fun _ _ _ hp hq =>
    Option.some.inj (Eq.trans (Eq.symm hp) hq)
  exact Relation.ReflTransGen.total_of_right_unique hunique hxa hxb

/-- No node is under two children of one node. -/
theorem eq_of_atOrUnder_children (h : t.WellFormed) {p a b x : NodeId} (ha : t.parent a = some p)
    (hb : t.parent b = some p) (hxa : t.AtOrUnder x a) (hxb : t.AtOrUnder x b) : a = b := by
  have hside : ∀ {a b}, t.parent a = some p → t.parent b = some p → t.AtOrUnder a b → a = b := by
    intro a b ha hb hab
    rcases Relation.ReflTransGen.cases_head hab with rfl | ⟨q, hq, hqb⟩
    · rfl
    · obtain rfl := Option.some.inj (ha.symm.trans hq)
      exact absurd (Relation.TransGen.tail' hqb hb) (h.acyclic p)
  rcases nested_of_atOrUnder hxa hxb with hab | hba
  · exact hside ha hb hab
  · exact (hside hb ha hba).symm

/-- **A traversal visits no node twice.** -/
theorem preorder_nodup (h : t.WellFormed) (n : NodeId) : (t.preorder n).Nodup := by
  induction n using h.down_induction with
  | step n ih =>
    rw [h.preorder_eq, List.nodup_cons]
    constructor
    · intro hn
      obtain ⟨c, hc, hx⟩ := List.mem_flatMap.mp hn
      have hlink : t.parent c = some n := (h.mem_children_iff n c).mp hc
      exact h.acyclic n (Relation.TransGen.tail' (h.mem_preorder_iff.mp hx) hlink)
    · refine List.pairwise_flatMap.mpr ⟨ih, ?_⟩
      refine (h.children_nodup n).imp_of_mem fun {a b} ha hb hne x hx y hy hxy => ?_
      subst hxy
      exact hne (h.eq_of_atOrUnder_children ((h.mem_children_iff n a).mp ha)
        ((h.mem_children_iff n b).mp hb) (h.mem_preorder_iff.mp hx) (h.mem_preorder_iff.mp hy))

/-- The attached nodes are those from which the way up leads to the root. -/
theorem mem_attached_iff (h : t.WellFormed) {n : NodeId} :
    n ∈ t.attached ↔ t.isAttached n = true := by
  rw [h.isAttached_iff, attached]
  cases hr : t.root with
  | none => simp
  | some r =>
    dsimp only
    rw [h.mem_preorder_iff]
    constructor
    · exact fun hn => ⟨r, rfl, hn⟩
    · rintro ⟨q, hq, hn⟩
      rwa [Option.some.inj hq]

theorem parent_mem_attached (h : t.WellFormed) {n p : NodeId} (hn : n ∈ t.attached)
    (hp : t.parent n = some p) : p ∈ t.attached := by
  rw [h.mem_attached_iff] at hn ⊢
  rwa [← h.isAttached_of_parent hp]

theorem mem_attached_of_atOrUnder (h : t.WellFormed) {n a : NodeId} (hn : n ∈ t.attached)
    (ha : t.AtOrUnder n a) : a ∈ t.attached := by
  induction ha with
  | refl => exact hn
  | tail _ hlink ih => exact h.parent_mem_attached ih hlink

theorem attached_nodup (h : t.WellFormed) : t.attached.Nodup := by
  unfold attached
  cases t.root with
  | none => exact List.nodup_nil
  | some r => exact h.preorder_nodup r

theorem lt_size_of_mem_attached (h : t.WellFormed) {n : NodeId} (hn : n ∈ t.attached) :
    n < t.nodes.size :=
  h.lt_size_of_isAttached (h.mem_attached_iff.mp hn)

/-! ## Traversals with a stack -/

/-- Traversals of several nodes, one after the other, are the traversal of their stack. -/
theorem visits_append (h : t.WellFormed) {stack ids : List NodeId} (n : NodeId)
    (hrest : Visits t stack ids) : Visits t (n :: stack) (t.preorder n ++ ids) := by
  induction n using h.down_induction generalizing stack ids with
  | step n ih =>
    have hall : ∀ cs : List NodeId, (∀ c ∈ cs, c ∈ t.children n) →
        Visits t (cs ++ stack) (cs.flatMap t.preorder ++ ids) := by
      intro cs
      induction cs with
      | nil => exact fun _ => hrest
      | cons c cs ihcs =>
        intro hcs
        rw [List.cons_append, List.flatMap_cons, List.append_assoc]
        exact ih c (hcs c (List.mem_cons_self ..))
          (ihcs fun x hx => hcs x (List.mem_cons_of_mem c hx))
    rw [h.preorder_eq, List.cons_append]
    exact .visit (hall _ fun _ hc => hc)

/-- **A traversal with a stack ends, and lists the nodes in pre-order.** -/
theorem visits_preorder (h : t.WellFormed) (n : NodeId) : Visits t [n] (t.preorder n) := by
  have hv := h.visits_append n .done
  rwa [List.append_nil] at hv

end WellFormed

/-! ## What users of a tree rely on -/

/-- The links of an arena agree, and the walks over them end where they should. -/
structure Consistent (t : Tree) : Prop where
  child_known : ∀ p, ∀ c ∈ t.children p, c < t.nodes.size
  /-- A node is listed once by the parent it names, and by no other. -/
  count_children : ∀ p c, (t.children p).count c = if t.parent c = some p then 1 else 0
  parent_unique : ∀ p q c, c ∈ t.children p → c ∈ t.children q → p = q
  acyclic : ∀ n, ¬ t.Under n n
  root_top : ∀ r, t.root = some r → r < t.nodes.size ∧ t.parent r = none
  /-- The walk up from a node ends at a node without a parent. -/
  way_up_ends : ∀ n, t.AtOrUnder n (t.summit n) ∧ t.parent (t.summit n) = none
  /-- The traversal with a stack ends, and has then visited the nodes in pre-order. -/
  traversal_ends : ∀ n, Visits t [n] (t.preorder n)
  mem_attached_iff : ∀ n, n ∈ t.attached ↔ t.isAttached n = true
  dominates_iff : ∀ a n, t.dominates a n = true ↔ n ∈ (t.preorder a).tail

theorem WellFormed.consistent {t : Tree} (h : t.WellFormed) : t.Consistent where
  child_known := fun _ _ => h.child_lt_size
  count_children := by
    intro p c
    by_cases hp : t.parent c = some p
    · rw [if_pos hp]
      exact List.count_eq_one_of_mem (h.children_nodup p) ((h.mem_children_iff p c).mpr hp)
    · rw [if_neg hp]
      exact List.count_eq_zero.mpr fun hc => hp ((h.mem_children_iff p c).mp hc)
  parent_unique := by
    intro p q c hp hq
    have hpq := ((h.mem_children_iff p c).mp hp).symm.trans ((h.mem_children_iff q c).mp hq)
    exact Option.some.inj hpq
  acyclic := h.acyclic
  root_top := fun r hr => ⟨h.root_known r hr, h.root_top r hr⟩
  way_up_ends := h.atOrUnder_summit
  traversal_ends := h.visits_preorder
  mem_attached_iff := fun _ => h.mem_attached_iff
  dominates_iff := fun _ _ => h.dominates_iff.trans h.mem_preorder_tail_iff.symm

end Tree

end Constituency
