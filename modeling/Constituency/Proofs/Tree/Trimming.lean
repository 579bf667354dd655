import Constituency.Proofs.Tree.Leaves
import Constituency.Proofs.Tree.Rearranging
import Constituency.Proofs.Tree.Shape

/-!
# What is left of a tree when nodes are taken off

Detaching nodes one after the other leaves a part of the tree that is closed upwards: with a node
all above it is left, the children of a node that is left are those of its children that are, and
labels are as they were (`Trimmed`). A part of a part is a part of the whole, and the way up from a
node that is left is the same as before. So what a detachment takes off a trimmed tree can be told
from the whole tree, and the order of detachments does not matter.

Pruning goes up from the detached node for as long as nothing is left below. `Climbed` says how far
it has come: everything at or below a node has been taken off, and no attached leaf there was not
below the node that was pruned.
-/

namespace Constituency.Tree

variable {t u v : Tree} {n c p x : NodeId}

/-- The second tree is what is left of the first when attached nodes have been taken off. -/
structure Trimmed (t u : Tree) : Prop where
  wellFormed : u.WellFormed
  size : u.nodes.size = t.nodes.size
  root : ∀ r, u.root = some r → t.root = some r
  label : ∀ n, u.label n = t.label n
  isAttached : ∀ n, u.isAttached n = true → t.isAttached n = true
  children : ∀ n, u.isAttached n = true → u.children n = (t.children n).filter u.isAttached

namespace Trimmed

theorem refl (h : t.WellFormed) : Trimmed t t := by
  refine ⟨h, rfl, fun _ hr => hr, fun _ => rfl, fun _ hn => hn, fun n hn => ?_⟩
  refine (List.filter_eq_self.mpr fun c hc => ?_).symm
  rwa [h.isAttached_of_parent ((h.mem_children_iff n c).mp hc)]

theorem trans (htu : Trimmed t u) (huv : Trimmed u v) : Trimmed t v := by
  refine ⟨huv.wellFormed, huv.size.trans htu.size, fun r hr => htu.root r (huv.root r hr),
    fun n => (huv.label n).trans (htu.label n), fun n hn => htu.isAttached n (huv.isAttached n hn),
    fun n hn => ?_⟩
  rw [huv.children n hn, htu.children n (huv.isAttached n hn), List.filter_filter]
  refine List.filter_congr fun c _ => ?_
  cases hc : v.isAttached c with
  | true => rw [huv.isAttached c hc]; rfl
  | false => rfl

/-- What is left keeps its parent. -/
theorem parent (hu : Trimmed t u) (ht : t.WellFormed) (hn : u.isAttached n = true) :
    u.parent n = t.parent n := by
  cases hp : u.parent n with
  | some p =>
    have hmem := (hu.wellFormed.mem_children_iff p n).mpr hp
    rw [hu.children p (by rwa [← hu.wellFormed.isAttached_of_parent hp])] at hmem
    exact ((ht.mem_children_iff p n).mp (List.mem_filter.mp hmem).1).symm
  | none =>
    have hroot := hu.wellFormed.root_of_parent_none hn hp
    exact (ht.root_top n (hu.root n hroot)).symm

/-- The way up from what is left is what it was. -/
theorem atOrUnder_iff (hu : Trimmed t u) (ht : t.WellFormed) (hn : u.isAttached n = true) :
    u.AtOrUnder n x ↔ t.AtOrUnder n x := by
  constructor
  · intro hx
    induction hx using Relation.ReflTransGen.head_induction_on with
    | refl => exact .refl
    | @head a b hl _ ih =>
      refine .head (by rw [Link, ← hu.parent ht hn]; exact hl) (ih ?_)
      rwa [← hu.wellFormed.isAttached_of_parent hl]
  · intro hx
    induction hx using Relation.ReflTransGen.head_induction_on with
    | refl => exact .refl
    | @head a b hl _ ih =>
      have hlink : u.parent a = some b := (hu.parent ht hn).trans hl
      exact .head hlink (ih (by rwa [← hu.wellFormed.isAttached_of_parent hlink]))

/-- What is above a node that is left is left. -/
theorem isAttached_above (hu : Trimmed t u) (ht : t.WellFormed) (hn : u.isAttached n = true)
    (hx : t.AtOrUnder n x) : u.isAttached x = true :=
  hu.wellFormed.isAttached_above hn ((hu.atOrUnder_iff ht hn).mpr hx)

theorem preorder (hu : Trimmed t u) (ht : t.WellFormed) (hn : u.isAttached n = true) :
    u.preorder n = (t.preorder n).filter u.isAttached := by
  induction n using ht.down_induction with
  | step n ih =>
    rw [hu.wellFormed.preorder_eq, ht.preorder_eq, List.filter_cons_of_pos hn, hu.children n hn,
      List.filter_flatMap]
    congr 1
    -- nothing below a child that is not left is left
    have hlost : ∀ c ∈ t.children n, u.isAttached c = false →
        (t.preorder c).filter u.isAttached = [] := by
      refine fun c _ hc => List.filter_eq_nil_iff.mpr fun x hx hleft => ?_
      have hcleft := hu.isAttached_above ht hleft (ht.mem_preorder_iff.mp hx)
      rw [hc] at hcleft
      exact absurd hcleft Bool.false_ne_true
    rw [← flatMap_filter_of_nil _ hlost]
    refine List.flatMap_congr fun c hc => ?_
    obtain ⟨hchild, hleft⟩ := List.mem_filter.mp hc
    exact ih c hchild hleft

/-- A tree without a root is one of which nothing is left. -/
theorem root_eq_none_iff (hu : Trimmed t u) :
    u.root = none ↔ ∀ n, u.isAttached n = false := by
  refine ⟨fun hr n => ?_, fun hnone => Option.eq_none_iff_forall_ne_some.mpr fun r hr => ?_⟩
  · rw [Tree.isAttached, hr]
    rfl
  · have hleft := hu.wellFormed.isAttached_iff.mpr ⟨r, hr, .refl⟩
    rw [hnone] at hleft
    exact absurd hleft Bool.false_ne_true

/-- **The attached nodes are some of those before, in the same order.** -/
theorem attached (hu : Trimmed t u) (ht : t.WellFormed) :
    u.attached = t.attached.filter u.isAttached := by
  cases hr : u.root with
  | none =>
    have hnone := hu.root_eq_none_iff.mp hr
    rw [Tree.attached, hr]
    exact (List.filter_eq_nil_iff.mpr fun n _ => by rw [hnone]; exact Bool.false_ne_true).symm
  | some r =>
    rw [Tree.attached, Tree.attached, hr, hu.root r hr]
    exact hu.preorder ht (hu.wellFormed.isAttached_iff.mpr ⟨r, hr, .refl⟩)

/-- A leaf that is left has nothing below it. -/
theorem isLeaf_of_isLeaf (hu : Trimmed t u) (hn : u.isAttached n = true)
    (hleaf : t.isLeaf n = true) : u.isLeaf n = true := by
  rw [isLeaf, hu.children n hn, List.isEmpty_iff.mp hleaf]
  rfl

/-- **What is left is determined by the nodes that are left.** -/
theorem sameAttached (hu : Trimmed t u) (hv : Trimmed t v)
    (hsame : ∀ n, v.isAttached n = u.isAttached n) : SameAttached u v := by
  have hroot : v.root = u.root := by
    cases hr : u.root with
    | none =>
      refine hv.root_eq_none_iff.mpr fun n => ?_
      rw [hsame, hu.root_eq_none_iff.mp hr]
    | some r =>
      have hleft := hu.wellFormed.isAttached_iff.mpr ⟨r, hr, .refl⟩
      rw [← hsame] at hleft
      obtain ⟨r', hr', _⟩ := hv.wellFormed.isAttached_iff.mp hleft
      rw [hr', ← hv.root r' hr', hu.root r hr]
  refine hu.wellFormed.sameAttached hv.wellFormed hroot fun n hn => ?_
  rw [hu.children n hn, hv.children n (by rwa [hsame]), funext hsame]

end Trimmed

/-- Trees with the same attached nodes and the same labels on them show the same labelled tree. -/
theorem SameAttached.whole_eq (h : SameAttached t u) (ht : t.WellFormed) (hu : u.WellFormed)
    (hlabel : ∀ n, u.label n = t.label n) : u.whole = t.whole := by
  have hbelow : ∀ n, n ∈ t.attached → u.constituent n = t.constituent n := by
    intro n
    induction n using ht.down_induction with
    | step n ih =>
      intro hn
      rw [hu.constituent_eq, ht.constituent_eq, hlabel, h.children n hn]
      congr 1
      refine List.map_congr_left fun c hc => ih c hc (ht.mem_attached_iff.mpr ?_)
      rw [ht.isAttached_of_parent ((ht.mem_children_iff n c).mp hc)]
      exact ht.mem_attached_iff.mp hn
  rw [whole, whole, h.root]
  cases hr : t.root with
  | none => rfl
  | some r =>
    have hattached := ht.mem_attached_iff.mpr (ht.isAttached_iff.mpr ⟨r, hr, .refl⟩)
    exact congrArg some (hbelow r hattached)

/-! ## Detaching one node -/

namespace WellFormed

theorem detach_root (h : t.WellFormed) (hroot : t.root = some x) :
    t.detach x = { t with root := none, revision := t.revision + 1 } := by
  rw [detach_of_parent_none (h.root_top x hroot), isRoot, hroot, if_pos (beq_self_eq_true _)]

/-- **Detaching a node** takes off all that is at or below it. -/
theorem isAttached_detach_iff (h : t.WellFormed) (x n : NodeId) :
    (t.detach x).isAttached n = true ↔ t.isAttached n = true ∧ ¬ t.AtOrUnder n x := by
  by_cases hroot : t.root = some x
  · -- everything that is attached is at or below the root
    refine ⟨fun hn => ?_, fun ⟨hn, hnot⟩ => ?_⟩
    · rw [h.detach_root hroot] at hn
      exact absurd hn Bool.false_ne_true
    · obtain ⟨r, hr, hup⟩ := h.isAttached_iff.mp hn
      exact absurd (Option.some.inj (hroot.symm.trans hr) ▸ hup) hnot
  · have hu := h.rearranged_detach hroot
    have hmem : ∀ {a b}, a ∈ (t.detach x).children b ↔ a ∈ t.children b ∧ a ≠ x := by
      intro a b
      rw [hu.children, List.mem_filter, bne_iff_ne]
    refine ⟨fun hn => ⟨?_, fun hx => ?_⟩, fun ⟨hn, hx⟩ => ?_⟩
    · exact hu.wellFormed.isAttached_of_kept h hu.root.symm hn fun a b _ hab => (hmem.mp hab).1
    · -- the way up to `x` is still there, and ends there
      have hway := h.atOrUnder_of_kept hu.wellFormed hx fun a b _ hb hab =>
        hmem.mpr ⟨hab, fun hax => h.not_mem_children_of_atOrUnder (hax ▸ hb) (hax ▸ hab)⟩
      have htop := hu.wellFormed.root_of_parent_none
        (hu.wellFormed.isAttached_above hn hway) (parent_detach_self t x)
      exact hroot (hu.root.symm.trans htop)
    · exact h.isAttached_of_kept hu.wellFormed hu.root hn fun a b ha hab =>
        hmem.mpr ⟨hab, fun hax => hx (hax ▸ ha)⟩

theorem trimmed_detach (h : t.WellFormed) (x : NodeId) : Trimmed t (t.detach x) := by
  have hiff := h.isAttached_detach_iff x
  by_cases hroot : t.root = some x
  · have hu := h.detach_root hroot
    have hnone : ∀ n, (t.detach x).isAttached n = true → False := by
      intro n hn
      rw [hu] at hn
      exact Bool.false_ne_true hn
    refine ⟨h.detach x, size_detach .., fun r hr => ?_, fun n => ?_,
      fun n hn => (hnone n hn).elim, fun n hn => (hnone n hn).elim⟩
    · rw [hu] at hr
      exact absurd hr (by simp)
    · rw [hu]
      rfl
  · have hu := h.rearranged_detach hroot
    refine ⟨hu.wellFormed, hu.size, fun r hr => hu.root.symm.trans hr, hu.label,
      fun n hn => ((hiff n).mp hn).1, fun n hn => ?_⟩
    obtain ⟨hattached, hnot⟩ := (hiff n).mp hn
    rw [hu.children]
    refine List.filter_congr fun c hc => ?_
    have hlink := (h.mem_children_iff n c).mp hc
    rw [Bool.eq_iff_iff, bne_iff_ne, hiff]
    refine ⟨fun hcx => ⟨by rwa [h.isAttached_of_parent hlink], fun hup => ?_⟩, ?_⟩
    · rcases Relation.ReflTransGen.cases_head hup with heq | ⟨q, hq, hqx⟩
      · exact hcx heq
      · exact hnot (Option.some.inj (hlink.symm.trans hq) ▸ hqx)
    · rintro ⟨_, hup⟩ rfl
      exact hup .refl

/-- Every node has a leaf at or below it. -/
theorem exists_leaf (h : t.WellFormed) (n : NodeId) : ∃ l, t.isLeaf l = true ∧ t.AtOrUnder l n := by
  obtain ⟨l, hl⟩ := List.exists_mem_of_length_pos (leavesBelow_length_pos h n)
  obtain ⟨hbelow, hleaf⟩ := List.mem_filter.mp hl
  exact ⟨l, hleaf, h.mem_preorder_iff.mp hbelow⟩

end WellFormed

/-! ## Going up from a detached node -/

/-- Pruning `x` has come up to `top`. -/
structure Climbed (t v : Tree) (x top : NodeId) : Prop where
  trimmed : Trimmed t v
  above : t.AtOrUnder x top
  isAttached_iff : ∀ n, v.isAttached n = true ↔ t.isAttached n = true ∧ ¬ t.AtOrUnder n top
  /-- Nothing else was there. -/
  bare : ∀ l, t.isAttached l = true → t.isLeaf l = true → t.AtOrUnder l top → t.AtOrUnder l x

namespace Climbed

variable {top : NodeId}

theorem detach (h : t.WellFormed) (x : NodeId) : Climbed t (t.detach x) x x :=
  ⟨h.trimmed_detach x, .refl, h.isAttached_detach_iff x, fun _ _ _ hup => hup⟩

/-- The parent of the node that was come to goes too if nothing is left below it. -/
theorem step (hc : Climbed t v x top) (h : t.WellFormed) (hp : t.parent top = some p)
    (hleaf : v.isLeaf p = true) : Climbed t (v.detach p) x p := by
  have hv := hc.trimmed
  refine ⟨hv.trans (hv.wellFormed.trimmed_detach p), hc.above.tail hp, fun n => ?_,
    fun l hl hbottom hup => ?_⟩
  · rw [hv.wellFormed.isAttached_detach_iff]
    constructor
    · rintro ⟨hn, hnot⟩
      exact ⟨hv.isAttached n hn, fun hup => hnot ((hv.atOrUnder_iff h hn).mpr hup)⟩
    · rintro ⟨hn, hnot⟩
      have hleft := (hc.isAttached_iff n).mpr ⟨hn, fun hup => hnot (hup.tail hp)⟩
      exact ⟨hleft, fun hup => hnot ((hv.atOrUnder_iff h hleft).mp hup)⟩
  · refine hc.bare l hl hbottom (Classical.byContradiction fun hnot => ?_)
    have hleft := (hc.isAttached_iff l).mpr ⟨hl, hnot⟩
    -- a leaf that is left below `p` is left below a child of it
    rcases Relation.ReflTransGen.cases_tail hup with rfl | ⟨d, hld, hd⟩
    · have hmem := (h.mem_children_iff p top).mpr hp
      rw [List.isEmpty_iff.mp hbottom] at hmem
      exact absurd hmem List.not_mem_nil
    · have hmem : d ∈ v.children p := by
        rw [hv.children p (hv.isAttached_above h hleft hup), List.mem_filter]
        exact ⟨(h.mem_children_iff p d).mpr hd, hv.isAttached_above h hleft hld⟩
      rw [List.isEmpty_iff.mp hleaf] at hmem
      exact absurd hmem List.not_mem_nil

/-- **What is left when pruning stops**, at the root or below a node that still has children: the
nodes with a leaf that was not below the pruned node. -/
theorem left_iff (hc : Climbed t v x top) (h : t.WellFormed)
    (hstop : ∀ p, t.parent top = some p → v.isLeaf p = false) :
    v.isAttached n = true ↔ t.isAttached n = true ∧
      ∃ l, t.isLeaf l = true ∧ t.AtOrUnder l n ∧ ¬ t.AtOrUnder l x := by
  rw [hc.isAttached_iff]
  refine and_congr_right fun hn => ⟨fun hnot => ?_, fun ⟨l, hleaf, hln, hlx⟩ hup => ?_⟩
  · by_cases htop : t.AtOrUnder top n
    · rcases Relation.ReflTransGen.cases_head htop with rfl | ⟨p, hp, hpn⟩
      · exact absurd .refl hnot
      · -- another child of `p` is left, and no leaf below it was below `x`
        have hpleft := (hc.isAttached_iff p).mpr ⟨h.isAttached_of_atOrUnder hn hpn, fun hup =>
          h.acyclic top (.head' hp hup)⟩
        obtain ⟨d, hd⟩ := List.isEmpty_eq_false_iff_exists_mem.mp (hstop p hp)
        rw [hc.trimmed.children p hpleft, List.mem_filter] at hd
        have hlink := (h.mem_children_iff p d).mp hd.1
        obtain ⟨l, hleaf, hld⟩ := h.exists_leaf d
        refine ⟨l, hleaf, (hld.tail hlink).trans hpn, fun hlx => ?_⟩
        have hsame := h.eq_of_atOrUnder_children hlink hp hld (hlx.trans hc.above)
        exact ((hc.isAttached_iff d).mp hd.2).2 (hsame ▸ .refl)
    · obtain ⟨l, hleaf, hln⟩ := h.exists_leaf n
      refine ⟨l, hleaf, hln, fun hlx => ?_⟩
      rcases WellFormed.nested_of_atOrUnder hln (hlx.trans hc.above) with hup | hup
      · exact hnot hup
      · exact htop hup
  · exact hlx (hc.bare l (h.isAttached_of_atOrUnder hn hln) hleaf (hln.trans hup))

end Climbed

end Constituency.Tree
