import Mathlib.Order.Bounds.Basic
import Constituency.Proofs.Search.Roots
import Constituency.Proofs.Tree.Descent

/-!
# The leaves that a node covers

The leaves of a tree are numbered from the left. A node covers a leaf that is the node itself or is
below it. Since what is below a node stands in one piece in the pre-order, the leaves that it covers
are a block in the list of all leaves, and the block is not empty: it is that of the first child,
then that of the next one, and so on.

An index records the two ends of each block, first for the leaves and then, from the end of the
pre-order to its start, for the other nodes, from those of their first and their last child. Behind
a node in the pre-order stand its children, so what is read is always there. `span_build` says that
what is recorded for an attached node are the least and the greatest number of the leaves that it
covers, and that it covers all between them.
-/

namespace Constituency

open Constituency.Tree

namespace Tree

/-- The leaves at or below a node, left to right. -/
def leavesBelow (t : Tree) (n : NodeId) : List NodeId := (t.preorder n).filter t.isLeaf

/-- Whether a node is, or is above, the leaf with a number, counted from the left. -/
def Covers (t : Tree) (n : NodeId) (i : Nat) : Prop :=
  ∃ l, t.leaves[i]? = some l ∧ t.AtOrUnder l n

/-- The number of the first leaf that a node covers. -/
def FirstLeaf (t : Tree) (n : NodeId) (i : Nat) : Prop := IsLeast {k | t.Covers n k} i

/-- The number of the last leaf that a node covers. -/
def LastLeaf (t : Tree) (n : NodeId) (i : Nat) : Prop := IsGreatest {k | t.Covers n k} i

/-- The leaves at or below a node stand in one piece among all leaves, the first of them at `k`. -/
def BlockAt (t : Tree) (n : NodeId) (k : Nat) : Prop :=
  ∃ front back, t.leaves = front ++ t.leavesBelow n ++ back ∧ front.length = k

/-- The ends of the block of a node that begins at `k`. -/
def blockSpan (t : Tree) (n : NodeId) (k : Nat) : Span := ⟨k, k + (t.leavesBelow n).length - 1⟩

variable {t : Tree} {n : NodeId} {k : Nat}

theorem leavesBelow_of_isLeaf (h : t.WellFormed) (hn : t.isLeaf n = true) :
    t.leavesBelow n = [n] := by
  have hnone : t.children n = [] := List.isEmpty_iff.mp hn
  rw [leavesBelow, h.preorder_eq, hnone, List.flatMap_nil, List.filter_singleton, hn]
  rfl

theorem leavesBelow_of_not_isLeaf (h : t.WellFormed) (hn : t.isLeaf n = false) :
    t.leavesBelow n = (t.children n).flatMap t.leavesBelow := by
  rw [leavesBelow, h.preorder_eq, List.filter_cons_of_neg (by rw [hn]; exact Bool.false_ne_true),
    List.filter_flatMap]
  rfl

/-- **Every node covers a leaf.** -/
theorem leavesBelow_length_pos (h : t.WellFormed) (n : NodeId) : 0 < (t.leavesBelow n).length := by
  induction n using h.down_induction with
  | step n ih =>
    cases hn : t.isLeaf n with
    | true => rw [leavesBelow_of_isLeaf h hn]; exact Nat.one_pos
    | false =>
      rw [leavesBelow_of_not_isLeaf h hn]
      cases hchildren : t.children n with
      | nil => rw [isLeaf, hchildren] at hn; exact absurd hn (by simp)
      | cons c cs =>
        have hc := ih c (hchildren ▸ List.mem_cons_self ..)
        rw [List.flatMap_cons, List.length_append]
        omega

/-! ## Blocks of leaves -/

theorem leaves_nodup (h : t.WellFormed) : t.leaves.Nodup := h.attached_nodup.filter _

theorem exists_blockAt (h : t.WellFormed) (hn : n ∈ t.attached) : ∃ k, t.BlockAt n k := by
  obtain ⟨front, back, hsplit⟩ := h.attached_split hn
  refine ⟨_, front.filter t.isLeaf, back.filter t.isLeaf, ?_, rfl⟩
  rw [leaves, hsplit, List.filter_append, List.filter_append]
  rfl

/-- The block of a leaf is that leaf. -/
theorem blockAt_leaf (h : t.WellFormed) (hn : n ∈ t.attached) (hleaf : t.isLeaf n = true) :
    t.BlockAt n (t.leaves.idxOf n) := by
  have hmem : n ∈ t.leaves := List.mem_filter.mpr ⟨hn, hleaf⟩
  obtain ⟨front, back, hsplit, hfront⟩ := List.eq_append_cons_of_mem hmem
  refine ⟨front, back, by rw [leavesBelow_of_isLeaf h hleaf, hsplit]; simp, ?_⟩
  rw [hsplit, List.idxOf_append_of_notMem hfront, List.idxOf_cons_self, Nat.add_zero]

/-- A block begins where the block of the first child does. -/
theorem BlockAt.head (h : t.WellFormed) (hk : t.BlockAt n k) {c : NodeId} {cs : List NodeId}
    (hchildren : t.children n = c :: cs) : t.BlockAt c k := by
  obtain ⟨front, back, hleaves, hfront⟩ := hk
  have hn : t.isLeaf n = false := by rw [isLeaf, hchildren]; rfl
  refine ⟨front, cs.flatMap t.leavesBelow ++ back, ?_, hfront⟩
  rw [hleaves, leavesBelow_of_not_isLeaf h hn, hchildren, List.flatMap_cons]
  simp only [List.append_assoc]

/-- It ends where the block of the last child does. -/
theorem BlockAt.last (h : t.WellFormed) (hk : t.BlockAt n k) {c : NodeId} {cs : List NodeId}
    (hchildren : t.children n = cs ++ [c]) :
    ∃ j, t.BlockAt c j ∧ j + (t.leavesBelow c).length = k + (t.leavesBelow n).length := by
  obtain ⟨front, back, hleaves, hfront⟩ := hk
  have hn : t.isLeaf n = false := by rw [isLeaf, hchildren]; simp
  have hbelow := leavesBelow_of_not_isLeaf h hn
  rw [hchildren, List.flatMap_append, List.flatMap_singleton] at hbelow
  refine ⟨_, ⟨front ++ cs.flatMap t.leavesBelow, back, ?_, rfl⟩, ?_⟩
  · rw [hleaves, hbelow]
    simp only [List.append_assoc]
  · rw [hbelow, List.length_append, List.length_append, hfront, Nat.add_assoc]

/-- **A node covers the leaves of its block, and no others.** -/
theorem BlockAt.covers_iff (h : t.WellFormed) (hk : t.BlockAt n k) {i : Nat} :
    t.Covers n i ↔ k ≤ i ∧ i < k + (t.leavesBelow n).length := by
  obtain ⟨front, back, hleaves, rfl⟩ := hk
  -- the leaf at a place in the block is at this place among all leaves
  have hplace : ∀ j, j < (t.leavesBelow n).length →
      t.leaves[front.length + j]? = (t.leavesBelow n)[j]? := by
    intro j hj
    rw [hleaves, List.append_assoc, List.getElem?_append_right (Nat.le_add_right ..),
      Nat.add_sub_cancel_left, List.getElem?_append_left hj]
  constructor
  · rintro ⟨l, hl, hup⟩
    have hleaf := (List.mem_filter.mp (List.mem_of_getElem? hl)).2
    have hmem : l ∈ t.leavesBelow n := List.mem_filter.mpr ⟨h.mem_preorder_iff.mpr hup, hleaf⟩
    obtain ⟨j, hj, hjl⟩ := List.mem_iff_getElem.mp hmem
    have hsame : t.leaves[i]? = t.leaves[front.length + j]? := by
      rw [hl, hplace j hj, List.getElem?_eq_getElem hj, hjl]
    have hi : i < t.leaves.length := (List.getElem?_eq_some_iff.mp hl).1
    have heq := (List.getElem?_inj hi (leaves_nodup h)).mp hsame
    omega
  · rintro ⟨hge, hlt⟩
    obtain ⟨j, rfl⟩ := Nat.exists_eq_add_of_le hge
    have hj : j < (t.leavesBelow n).length := by omega
    refine ⟨(t.leavesBelow n)[j], by rw [hplace j hj, List.getElem?_eq_getElem hj], ?_⟩
    exact h.mem_preorder_iff.mp (List.mem_filter.mp (List.getElem_mem hj)).1

end Tree

/-! ## What an index records -/

namespace Index

variable {t : Tree}

/-- A table with the ends of the blocks of the leaves, and of the nodes of a list. -/
structure Filled (t : Tree) (ids : List NodeId) (spans : Array (Option Span)) : Prop where
  size : spans.size = t.nodes.size
  entry : ∀ n ∈ t.attached, t.isLeaf n = true ∨ n ∈ ids → ∀ k, t.BlockAt n k →
    spans[n]?.join = some (t.blockSpan n k)

theorem size_foldl_setIfInBounds {α : Type} (value : Nat → α) : ∀ (ids : List (NodeId × Nat))
    (xs : Array (Option α)),
    (ids.foldl (fun xs (n, k) => xs.setIfInBounds n (some (value k))) xs).size = xs.size
  | [], _ => rfl
  | (n, k) :: ids, xs => by
    rw [List.foldl_cons, size_foldl_setIfInBounds value ids, Array.size_setIfInBounds]

/-- A block begins at one place only. -/
theorem blockAt_unique (h : t.WellFormed) {n : NodeId} {j k : Nat} (hj : t.BlockAt n j)
    (hk : t.BlockAt n k) : j = k := by
  have hpos := leavesBelow_length_pos h n
  have hjk := (hk.covers_iff h).mp ((hj.covers_iff h).mpr ⟨Nat.le_refl j, by omega⟩)
  have hkj := (hj.covers_iff h).mp ((hk.covers_iff h).mpr ⟨Nat.le_refl k, by omega⟩)
  omega

/-- The leaves are numbered first. -/
theorem filled_leaves (h : t.WellFormed) :
    Filled t [] (((t.attached.filter t.isLeaf).zipIdx).foldl
      (fun spans (id, k) => spans.setIfInBounds id (some ⟨k, k⟩))
      (Array.replicate t.nodes.size none)) := by
  refine ⟨by rw [size_foldl_setIfInBounds (fun k => (⟨k, k⟩ : Span)), Array.size_replicate], ?_⟩
  intro n hn hleaf k hk
  have hleaf : t.isLeaf n = true := hleaf.resolve_right (by simp)
  have hentry := foldl_setIfInBounds (fun k => (⟨k, k⟩ : Span)) t.leaves 0
    (Array.replicate t.nodes.size none) (leaves_nodup h) (List.mem_filter.mpr ⟨hn, hleaf⟩)
    (by rw [Array.size_replicate]; exact h.lt_size_of_mem_attached hn)
  obtain rfl := blockAt_unique h hk (blockAt_leaf h hn hleaf)
  rw [blockSpan, leavesBelow_of_isLeaf h hleaf]
  rwa [Nat.zero_add] at hentry

/-- **A node gets its entry from its first and its last child**, which have theirs already. -/
theorem Filled.cover (h : t.WellFormed) {front rest : List NodeId} {id : NodeId}
    {spans : Array (Option Span)} (hsplit : t.attached = front ++ id :: rest)
    (hfilled : Filled t rest spans) : Filled t (id :: rest) (cover t spans id) := by
  have hid : id ∈ t.attached := hsplit ▸ List.mem_append_right _ (List.mem_cons_self ..)
  obtain ⟨back, hrest⟩ := h.attached_after hsplit
  -- the children stand behind the node
  have hchild : ∀ c ∈ t.children id, c ∈ t.attached ∧ c ∈ rest := by
    intro c hc
    have hmem : c ∈ rest := by
      rw [hrest]
      refine List.mem_append_left _ (List.mem_flatMap.mpr ⟨c, hc, ?_⟩)
      exact h.mem_preorder_iff.mpr .refl
    exact ⟨hsplit ▸ List.mem_append_right _ (List.mem_cons_of_mem id hmem), hmem⟩
  cases hleaf : t.isLeaf id with
  | true =>
    have hnone : t.children id = [] := List.isEmpty_iff.mp hleaf
    have hsame : Index.cover t spans id = spans := by rw [Index.cover, hnone]; rfl
    rw [hsame]
    refine ⟨hfilled.size, fun n hn hmem => hfilled.entry n hn ?_⟩
    rcases hmem with hl | hmem
    · exact .inl hl
    · rcases List.mem_cons.mp hmem with rfl | hmem
      · exact .inl hleaf
      · exact .inr hmem
  | false =>
    have hne : t.children id ≠ [] := fun hnil => by
      rw [isLeaf, hnil] at hleaf
      exact absurd hleaf (by simp)
    obtain ⟨c, cs, hfirst⟩ := List.exists_cons_of_ne_nil hne
    obtain ⟨ds, d, hlast⟩ := (List.eq_nil_or_concat' (t.children id)).resolve_left hne
    obtain ⟨k, hk⟩ := exists_blockAt h hid
    obtain ⟨j, hj, hend⟩ := hk.last h hlast
    obtain ⟨hc, hcrest⟩ := hchild c (hfirst ▸ List.mem_cons_self ..)
    obtain ⟨hd, hdrest⟩ := hchild d (hlast ▸ List.mem_append_right _ (List.mem_singleton_self d))
    have hcentry := hfilled.entry c hc (.inr hcrest) k (hk.head h hfirst)
    have hdentry := hfilled.entry d hd (.inr hdrest) j hj
    have hset : Index.cover t spans id = spans.setIfInBounds id (some (t.blockSpan id k)) := by
      have hhead : (t.children id).head? = some c := by rw [hfirst]; rfl
      have hgetLast : (t.children id).getLast? = some d := by rw [hlast, List.getLast?_concat]
      rw [Index.cover, hhead, hgetLast]
      dsimp only
      rw [hcentry, hdentry]
      dsimp only [blockSpan]
      rw [hend]
    rw [hset]
    refine ⟨by rw [Array.size_setIfInBounds, hfilled.size], fun n hn hmem i hi => ?_⟩
    by_cases hsame : id = n
    · subst hsame
      have hlt : id < spans.size := by rw [hfilled.size]; exact h.lt_size_of_mem_attached hid
      rw [Array.getElem?_setIfInBounds_self_of_lt hlt, blockAt_unique h hi hk]
      rfl
    · rw [Array.getElem?_setIfInBounds_ne hsame]
      refine hfilled.entry n hn (hmem.imp_right fun hmem => ?_) i hi
      exact (List.mem_cons.mp hmem).resolve_left (Ne.symm hsame)

/-- Going through the nodes from the last to the first fills the table. -/
theorem filled_foldr (h : t.WellFormed) {spans : Array (Option Span)}
    (hleaves : Filled t [] spans) :
    ∀ (front ids : List NodeId), t.attached = front ++ ids →
      Filled t ids (ids.foldr (fun id spans => Index.cover t spans id) spans)
  | _, [], _ => hleaves
  | front, id :: ids, hsplit => by
    rw [List.foldr_cons]
    refine Filled.cover h hsplit (filled_foldr h hleaves (front ++ [id]) ids ?_)
    rw [hsplit, List.append_assoc]
    rfl

theorem span_eq_blockSpan (h : t.WellFormed) {n : NodeId} (hn : n ∈ t.attached) {k : Nat}
    (hk : t.BlockAt n k) : (build t).span n = some (t.blockSpan n k) := by
  have hfilled := filled_foldr h (filled_leaves h) [] t.attached rfl
  rw [← List.foldl_reverse] at hfilled
  exact hfilled.entry n hn (.inr hn) k hk

/-- **An index records the first and the last leaf that an attached node covers**, and the node
covers all leaves between them. -/
theorem span_build (h : t.WellFormed) {n : NodeId} (hn : n ∈ t.attached) :
    ∃ s, (build t).span n = some s ∧ t.FirstLeaf n s.first ∧ t.LastLeaf n s.last ∧
      ∀ i, t.Covers n i ↔ s.first ≤ i ∧ i ≤ s.last := by
  obtain ⟨k, hk⟩ := exists_blockAt h hn
  have hpos := leavesBelow_length_pos h n
  have hcovers : ∀ i, t.Covers n i ↔
      (t.blockSpan n k).first ≤ i ∧ i ≤ (t.blockSpan n k).last := by
    intro i
    rw [hk.covers_iff h]
    dsimp only [blockSpan]
    omega
  refine ⟨t.blockSpan n k, span_eq_blockSpan h hn hk, ⟨?_, ?_⟩, ⟨?_, ?_⟩, hcovers⟩
  · exact (hcovers _).mpr ⟨Nat.le_refl _, by dsimp only [blockSpan]; omega⟩
  · exact fun i hi => ((hcovers i).mp hi).1
  · exact (hcovers _).mpr ⟨by dsimp only [blockSpan]; omega, Nat.le_refl _⟩
  · exact fun i hi => ((hcovers i).mp hi).2

end Index

end Constituency
