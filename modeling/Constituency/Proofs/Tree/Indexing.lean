import Constituency.Proofs.Tree.Leaves
import Constituency.Proofs.Tree.Requests

/-!
# What an index says about a tree

An index is filled in by two passes over the pre-order of the attached nodes, and nothing else is
written into its tables. So it can be read in both directions: what it says of an attached node is
true of it, and of all other ids it says nothing (`Describes`).

The pre-order is described without the traversal too. A node comes before those under it, and what
is under a child comes before what is under a child to the right of it (`ComesBefore`).

That an index describes its tree needs no more than that the tree is well-formed, so it holds after
any requests, and with any number of detached nodes in the arena.
-/

namespace Constituency

open Constituency.Tree

namespace Tree

/-- The order of a tree: downwards, and from the left to the right. -/
inductive ComesBefore (t : Tree) (a b : NodeId) : Prop where
  | above : t.Under b a → ComesBefore t a b
  | left {p c d : NodeId} : [c, d].Sublist (t.children p) → t.AtOrUnder a c → t.AtOrUnder b d →
      ComesBefore t a b

variable {t : Tree}

/-- **A traversal lists the nodes in the order of the tree.** -/
theorem WellFormed.preorder_sorted (h : t.WellFormed) (n : NodeId) :
    (t.preorder n).Pairwise t.ComesBefore := by
  induction n using h.down_induction with
  | step n ih =>
    rw [h.preorder_eq, List.pairwise_cons]
    constructor
    · intro x hx
      have htail : x ∈ (t.preorder n).tail := by rwa [h.preorder_eq]
      exact .above (h.mem_preorder_tail_iff.mp htail)
    · refine List.pairwise_flatMap.mpr ⟨ih, ?_⟩
      rw [List.pairwise_iff_forall_sublist]
      intro c d hcd x hx y hy
      exact .left hcd (h.mem_preorder_iff.mp hx) (h.mem_preorder_iff.mp hy)

theorem WellFormed.attached_in_order (h : t.WellFormed) : t.attached.Pairwise t.ComesBefore := by
  unfold attached
  cases t.root with
  | none => exact List.Pairwise.nil
  | some r => exact h.preorder_sorted r

/-- The traversal with a stack that starts at the root, if there is one, visits these nodes. -/
theorem WellFormed.visits_attached (h : t.WellFormed) : Visits t t.root.toList t.attached := by
  unfold attached
  cases t.root with
  | none => exact .done
  | some r => exact h.visits_preorder r

end Tree

namespace Index

variable {t u : Tree}

/-- What an index has to say about a tree. -/
structure Describes (i : Index) (t : Tree) : Prop where
  /-- The sequence is what a traversal with a stack visits. -/
  visited : Visits t t.root.toList i.preorder
  in_order : i.preorder.Pairwise t.ComesBefore
  nodup : i.preorder.Nodup
  mem_preorder_iff : ∀ n, n ∈ i.preorder ↔ t.isAttached n = true
  /-- Positions are the places in the sequence; other ids have none. -/
  position_iff : ∀ n k, i.position n = some k ↔ i.preorder[k]? = some n
  /-- The span of an attached node: the least and the greatest number of the leaves at or under it,
  and the leaves between these are at or under it as well. -/
  span : ∀ n, t.isAttached n = true → ∃ s, i.span n = some s ∧ t.FirstLeaf n s.first ∧
    t.LastLeaf n s.last ∧ ∀ k, s.first ≤ k → k ≤ s.last → t.Covers n k
  span_of_not_attached : ∀ n, t.isAttached n = false → i.span n = none
  /-- A label is recorded if an attached node has it, with these nodes in order. -/
  labelled_iff : ∀ l ids, i.labelled.lookup l = some ids ↔
    ids ≠ [] ∧ ids = i.preorder.filter fun n => t.label n = l

/-! ## Nothing is recorded for other ids -/

theorem position_of_not_mem {n : NodeId} (hn : n ∉ t.attached) : (build t).position n = none := by
  have hentry := foldl_setIfInBounds_of_not_mem (fun k => k) t.attached 0
    (Array.replicate t.nodes.size none) hn
  have hunknown : (Array.replicate t.nodes.size (none : Option Nat))[n]?.join = none := by
    rw [Array.getElem?_replicate]
    split <;> rfl
  exact (congrArg Option.join hentry).trans hunknown

/-- A node gets its span, and no other node does. -/
theorem getElem?_cover_of_ne (t : Tree) (spans : Array (Option Span)) {id n : NodeId}
    (hne : id ≠ n) : (cover t spans id)[n]? = spans[n]? := by
  unfold cover
  split
  · split
    · exact Array.getElem?_setIfInBounds_ne hne
    · rfl
  · rfl

theorem getElem?_foldl_cover_of_not_mem (t : Tree) {n : NodeId} (ids : List NodeId)
    (spans : Array (Option Span)) (hn : n ∉ ids) : (ids.foldl (cover t) spans)[n]? = spans[n]? := by
  induction ids generalizing spans with
  | nil => rfl
  | cons id ids ih =>
    rw [List.mem_cons, not_or] at hn
    rw [List.foldl_cons, ih _ hn.2, getElem?_cover_of_ne t spans (Ne.symm hn.1)]

theorem span_of_not_mem {n : NodeId} (hn : n ∉ t.attached) : (build t).span n = none := by
  have hleaf : n ∉ t.attached.filter t.isLeaf := fun hmem => hn (List.mem_filter.mp hmem).1
  have hentry : (spansOf t t.attached)[n]? = (Array.replicate t.nodes.size none)[n]? := by
    unfold spansOf
    rw [getElem?_foldl_cover_of_not_mem t _ _ (by rwa [List.mem_reverse])]
    exact foldl_setIfInBounds_of_not_mem (fun k => (⟨k, k⟩ : Span)) _ 0 _ hleaf
  have hunknown : (Array.replicate t.nodes.size (none : Option Span))[n]?.join = none := by
    rw [Array.getElem?_replicate]
    split <;> rfl
  exact (congrArg Option.join hentry).trans hunknown

/-! ## Positions are inverse to the sequence -/

theorem position_build_iff (h : t.WellFormed) (n : NodeId) (k : Nat) :
    (build t).position n = some k ↔ t.attached[k]? = some n := by
  constructor
  · intro hk
    by_cases hn : n ∈ t.attached
    · rw [position_build h hn] at hk
      obtain rfl := Option.some.inj hk
      exact List.getElem?_idxOf hn
    · rw [position_of_not_mem hn] at hk
      exact absurd hk (by simp)
  · intro hk
    obtain ⟨hlt, rfl⟩ := List.getElem?_eq_some_iff.mp hk
    rw [position_build h (List.getElem_mem hlt), h.attached_nodup.idxOf_getElem k hlt]

/-! ## Labels are recorded with their nodes -/

theorem lookup_foldl_record (t : Tree) (l : Label) (ids : List NodeId)
    (labelled : List (Label × List NodeId)) :
    (ids.foldl (fun labelled id => record (t.label id) id labelled) labelled).lookup l =
      if ids.filter (fun id => t.label id = l) = [] then labelled.lookup l
      else some ((labelled.lookup l).getD [] ++ ids.filter fun id => t.label id = l) := by
  induction ids generalizing labelled with
  | nil => rfl
  | cons id ids ih =>
    rw [List.foldl_cons, ih, lookup_record_eq, List.filter_cons]
    by_cases hl : t.label id = l
    · by_cases hnone : ids.filter (fun id => t.label id = l) = []
      · simp [hl, hnone]
      · simp [hl, hnone]
    · simp [hl]

theorem lookup_labelled_build (t : Tree) (l : Label) (ids : List NodeId) :
    (build t).labelled.lookup l = some ids ↔
      ids ≠ [] ∧ ids = t.attached.filter fun n => t.label n = l := by
  have hlookup := lookup_foldl_record t l t.attached []
  show (t.attached.foldl (fun labelled id => record (t.label id) id labelled) []).lookup l
    = some ids ↔ _
  rw [hlookup]
  by_cases hnone : t.attached.filter (fun n => t.label n = l) = []
  · rw [if_pos hnone, hnone]
    constructor
    · exact fun hids => absurd hids (by simp)
    · exact fun hids => absurd hids.2 hids.1
  · rw [if_neg hnone]
    constructor
    · intro hids
      obtain rfl := Option.some.inj hids
      exact ⟨hnone, rfl⟩
    · rintro ⟨-, rfl⟩
      rfl

/-! ## The index of a tree -/

/-- **An index describes the tree that it is made from**, whatever has been done to it. -/
theorem describes_build (h : t.WellFormed) (hedits : Edits t u) : (build u).Describes u := by
  have hu := (h.edits hedits).1
  exact {
    visited := hu.visits_attached
    in_order := hu.attached_in_order
    nodup := hu.attached_nodup
    mem_preorder_iff := fun n => hu.mem_attached_iff
    position_iff := fun n k => position_build_iff hu n k
    span := by
      intro n hn
      obtain ⟨s, hs, hfirst, hlast, hcovers⟩ := span_build hu (hu.mem_attached_iff.mpr hn)
      exact ⟨s, hs, hfirst, hlast, fun k hge hle => (hcovers k).mpr ⟨hge, hle⟩⟩
    span_of_not_attached := by
      intro n hn
      refine span_of_not_mem fun hmem => ?_
      rw [hu.mem_attached_iff, hn] at hmem
      exact absurd hmem (by simp)
    labelled_iff := lookup_labelled_build u }

/-- The index of what is left when a node has been cut off. -/
theorem describes_build_of_cut :
    let c : Constituent := .node "S" [.node "NP" [.node "x" []], .node "VP" [.node "y" []]]
    let t := Tree.ofConstituent (some c)
    let u := (t.perform (.detach 1)).1
    t.WellFormed ∧ Edits t u ∧ u.isAttached 1 = false ∧ (build u).Describes u := by
  intro c t u
  have h : t.WellFormed := Tree.wellFormed_ofConstituent (some c)
  have hedits : Edits t u := .single (by decide)
  have hcut : u.isAttached 1 = false := by decide
  exact ⟨h, hedits, hcut, describes_build h hedits⟩

end Index

end Constituency
