import Constituency.Proofs.Surgery.EachNode
import Constituency.Proofs.Tree.Trimming

/-!
# What deleting and pruning leave

Both operations take several nodes off the tree, one after the other, and later ones may lie in what
has been taken off already. Deleting leaves the attached nodes that are not at or below one of the
nodes (`isCovered`). Pruning leaves those that are at or above a leaf which is not (`isSpared`): the
leaves that are left always have all their ancestors, and every node that is left has a leaf.

Both conditions are on the tree as it was before and on the set of the nodes. So what is left does
not depend on the order of the names (`delete_prune_keep`).
-/

namespace Constituency

open Constituency.Tree Constituency.Surgery

namespace Tree

/-- Whether a node is one of some nodes or below one of them. -/
def isCovered (t : Tree) (ids : List NodeId) (n : NodeId) : Bool :=
  ids.any fun x => n == x || t.dominates x n

/-- Whether a node is or dominates an attached leaf that some nodes do not cover. -/
def isSpared (t : Tree) (ids : List NodeId) (n : NodeId) : Bool :=
  t.leaves.any fun l => (l == n || t.dominates n l) && !t.isCovered ids l

variable {t u v : Tree} {ids : List NodeId} {n x : NodeId}

namespace WellFormed

theorem eq_or_dominates_iff (h : t.WellFormed) {a b : NodeId} :
    (b == a || t.dominates a b) = true ↔ t.AtOrUnder b a := by
  rw [Bool.or_eq_true, beq_iff_eq, h.dominates_iff, AtOrUnder,
    Relation.reflTransGen_iff_eq_or_transGen, eq_comm]

theorem isSpared_iff (h : t.WellFormed) : t.isSpared ids n = true ↔
    ∃ l, t.isAttached l = true ∧ t.isLeaf l = true ∧ t.AtOrUnder l n ∧
      t.isCovered ids l = false := by
  simp only [isSpared, leaves, List.any_eq_true, List.mem_filter, Bool.and_eq_true,
    h.eq_or_dominates_iff, Bool.not_eq_true', h.mem_attached_iff, and_assoc]

theorem eq_of_isLeaf (h : t.WellFormed) (hleaf : t.isLeaf n = true) (hx : t.AtOrUnder x n) :
    x = n := by
  rcases Relation.ReflTransGen.cases_tail hx with heq | ⟨c, _, hc⟩
  · exact heq.symm
  · have hmem := (h.mem_children_iff n c).mpr hc
    rw [List.isEmpty_iff.mp hleaf] at hmem
    exact absurd hmem List.not_mem_nil

end WellFormed

theorem isCovered_append_singleton (t : Tree) (ids : List NodeId) (x n : NodeId) :
    t.isCovered (ids ++ [x]) n = (t.isCovered ids n || (n == x || t.dominates x n)) := by
  rw [isCovered, List.any_append, List.any_cons, List.any_nil, Bool.or_false]
  rfl

/-- A node that the arena does not have covers no attached node. -/
theorem isCovered_append_unknown (h : t.WellFormed) (hx : ¬ x < t.nodes.size)
    (hn : t.isAttached n = true) : t.isCovered (ids ++ [x]) n = t.isCovered ids n := by
  have hnot : (n == x || t.dominates x n) = false := by
    refine Bool.eq_false_iff.mpr fun hup => hx ?_
    exact h.lt_size_of_isAttached (h.isAttached_above hn (h.eq_or_dominates_iff.mp hup))
  rw [isCovered_append_singleton, hnot, Bool.or_false]

/-- What covers a node does not depend on how the covering nodes are listed. -/
theorem isCovered_congr {ids' : List NodeId} (hids : ∀ n, n ∈ ids' ↔ n ∈ ids) :
    t.isCovered ids' = t.isCovered ids := by
  funext n
  rw [Bool.eq_iff_iff]
  simp only [isCovered, List.any_eq_true, hids]

theorem isSpared_congr {ids' : List NodeId} (hids : ∀ n, n ∈ ids' ↔ n ∈ ids) :
    t.isSpared ids' = t.isSpared ids := by
  unfold isSpared
  rw [isCovered_congr hids]

/-! ## What is left -/

/-- The nodes that are left are those that are not covered. -/
structure Deleted (t u : Tree) (ids : List NodeId) : Prop extends Trimmed t u where
  isAttached_iff : ∀ n, u.isAttached n = true ↔ t.isAttached n = true ∧ t.isCovered ids n = false

/-- The nodes that are left are those with a leaf that is not covered. -/
structure Pruned (t u : Tree) (ids : List NodeId) : Prop extends Trimmed t u where
  isAttached_iff : ∀ n, u.isAttached n = true ↔ t.isAttached n = true ∧ t.isSpared ids n = true

namespace Deleted

theorem refl (h : t.WellFormed) : Deleted t t [] :=
  ⟨.refl h, fun _ => ⟨fun hn => ⟨hn, rfl⟩, fun hn => hn.1⟩⟩

theorem detach (hu : Deleted t u ids) (h : t.WellFormed) (x : NodeId) :
    Deleted t (u.detach x) (ids ++ [x]) := by
  have htrimmed := hu.toTrimmed.trans (hu.wellFormed.trimmed_detach x)
  refine ⟨htrimmed, fun n => ?_⟩
  have hx : (n == x || t.dominates x n) = false ↔ ¬ t.AtOrUnder n x := by
    rw [← h.eq_or_dominates_iff, Bool.not_eq_true]
  rw [hu.wellFormed.isAttached_detach_iff, isCovered_append_singleton, Bool.or_eq_false_iff, hx,
    ← and_assoc, ← hu.isAttached_iff]
  exact and_congr_right fun hn => not_congr (hu.toTrimmed.atOrUnder_iff h hn)

theorem append_unknown (hu : Deleted t u ids) (h : t.WellFormed) (hx : ¬ x < u.nodes.size) :
    Deleted t u (ids ++ [x]) := by
  refine ⟨hu.toTrimmed, fun n => (hu.isAttached_iff n).trans (and_congr_right fun hn => ?_)⟩
  rw [isCovered_append_unknown h (hu.size ▸ hx) hn]

end Deleted

namespace Pruned

theorem refl (h : t.WellFormed) : Pruned t t [] := by
  refine ⟨.refl h, fun n => ⟨fun hn => ⟨hn, h.isSpared_iff.mpr ?_⟩, fun hn => hn.1⟩⟩
  obtain ⟨l, hleaf, hln⟩ := h.exists_leaf n
  exact ⟨l, h.isAttached_of_atOrUnder hn hln, hleaf, hln, rfl⟩

/-- A leaf that is not covered is left, and so is all above it. -/
theorem isAttached_of_leaf (hu : Pruned t u ids) (h : t.WellFormed) {l : NodeId}
    (hl : t.isAttached l = true) (hleaf : t.isLeaf l = true) (hfree : t.isCovered ids l = false)
    (hup : t.AtOrUnder l n) : u.isAttached n = true :=
  (hu.isAttached_iff n).mpr
    ⟨h.isAttached_above hl hup, h.isSpared_iff.mpr ⟨l, hl, hleaf, hup, hfree⟩⟩

/-- Below a node that is left, a leaf is left. -/
theorem exists_leaf (hu : Pruned t u ids) (h : t.WellFormed) (hn : u.isAttached n = true) :
    ∃ l, u.isAttached l = true ∧ t.isLeaf l = true ∧ t.AtOrUnder l n ∧
      t.isCovered ids l = false := by
  obtain ⟨l, hl, hleaf, hln, hfree⟩ := h.isSpared_iff.mp ((hu.isAttached_iff n).mp hn).2
  exact ⟨l, hu.isAttached_of_leaf h hl hleaf hfree .refl, hleaf, hln, hfree⟩

/-- **No inner node becomes a leaf.** -/
theorem isLeaf_eq (hu : Pruned t u ids) (h : t.WellFormed) (hn : u.isAttached n = true) :
    u.isLeaf n = t.isLeaf n := by
  rw [Bool.eq_iff_iff]
  refine ⟨fun hleaf => ?_, hu.toTrimmed.isLeaf_of_isLeaf hn⟩
  obtain ⟨l, hl, hbottom, hln, _⟩ := hu.exists_leaf h hn
  have hway := (hu.toTrimmed.atOrUnder_iff h hl).mpr hln
  rwa [hu.wellFormed.eq_of_isLeaf hleaf hway] at hbottom

/-- Pruning one more node. -/
theorem prune (hu : Pruned t u ids) (h : t.WellFormed) (hv : Trimmed u v)
    (hleft : ∀ n, v.isAttached n = true ↔ u.isAttached n = true ∧
      ∃ l, u.isLeaf l = true ∧ u.AtOrUnder l n ∧ ¬ u.AtOrUnder l x) :
    Pruned t v (ids ++ [x]) := by
  have hcovered : ∀ l, t.isCovered (ids ++ [x]) l = false ↔
      t.isCovered ids l = false ∧ ¬ t.AtOrUnder l x := by
    intro l
    rw [isCovered_append_singleton, Bool.or_eq_false_iff, ← h.eq_or_dominates_iff,
      Bool.not_eq_true]
  refine ⟨hu.toTrimmed.trans hv, fun n => (hleft n).trans ⟨?_, ?_⟩⟩
  · rintro ⟨hn, l, hleaf, hln, hlx⟩
    have hl := hu.wellFormed.isAttached_of_atOrUnder hn hln
    have hup := fun {m} => hu.toTrimmed.atOrUnder_iff (x := m) h hl
    -- a leaf that is left was one before, and is its own leaf
    obtain ⟨l', _, _, hll, hfree⟩ := hu.exists_leaf h hl
    obtain rfl := h.eq_of_isLeaf (hu.isLeaf_eq h hl ▸ hleaf) hll
    exact ⟨hu.isAttached n hn, h.isSpared_iff.mpr ⟨l', hu.isAttached l' hl,
      hu.isLeaf_eq h hl ▸ hleaf, hup.mp hln, (hcovered l').mpr ⟨hfree, fun hx => hlx (hup.mpr hx)⟩⟩⟩
  · rintro ⟨hn, hspared⟩
    obtain ⟨l, hl, hleaf, hln, hfree⟩ := h.isSpared_iff.mp hspared
    obtain ⟨hfree, hlx⟩ := (hcovered l).mp hfree
    have hlu := hu.isAttached_of_leaf h hl hleaf hfree .refl
    have hup := fun {m} => hu.toTrimmed.atOrUnder_iff (x := m) h hlu
    exact ⟨hu.isAttached_of_leaf h hl hleaf hfree hln, l, hu.toTrimmed.isLeaf_of_isLeaf hlu hleaf,
      hup.mpr hln, fun hx => hlx (hup.mp hx)⟩

theorem append_unknown (hu : Pruned t u ids) (h : t.WellFormed) (hx : ¬ x < u.nodes.size) :
    Pruned t u (ids ++ [x]) := by
  refine ⟨hu.toTrimmed, fun n => (hu.isAttached_iff n).trans (and_congr_right fun _ => ?_)⟩
  rw [h.isSpared_iff, h.isSpared_iff]
  refine exists_congr fun l => and_congr_right fun hl => ?_
  rw [isCovered_append_unknown h (hu.size ▸ hx) hl]

end Pruned

end Tree

/-! ## The operations -/

namespace Edit

variable {t v : Tree} {ids : List NodeId} {x top : NodeId}

theorem ends_detach (hx : x < t.nodes.size) :
    Ends (detach x) t (fun _ u => u = t.detach x) fun _ _ => False :=
  ends_perform (r := .detach x) (contains_eq_true.mpr hx) rfl

/-- **Going up** detaches the nodes above that have nothing left, and stops below one that has. -/
theorem ends_detachChildless_of_climbed (h : t.WellFormed) (hv : Climbed t v x top) :
    Ends (detachChildless (t.ancestors top)) v
      (fun _ u => Trimmed t u ∧ ∀ n, u.isAttached n = true ↔ t.isAttached n = true ∧
        ∃ l, t.isLeaf l = true ∧ t.AtOrUnder l n ∧ ¬ t.AtOrUnder l x) fun _ _ => False := by
  induction top using h.up_induction generalizing v with
  | step top ih =>
    cases hp : t.parent top with
    | none =>
      rw [h.ancestors_of_parent_none hp]
      refine Ends.of_pure ⟨hv.trimmed, fun n => hv.left_iff h fun p hq => ?_⟩
      exact absurd (hp.symm.trans hq) (by simp)
    | some p =>
      rw [h.ancestors_of_parent hp]
      refine Ends.get_bind ?_
      cases hleaf : v.isLeaf p with
      | true =>
        rw [if_pos rfl]
        refine (ends_detach (hv.trimmed.size ▸ h.parent_lt_size hp)).bind ?_ fun _ _ hf => hf
        rintro _ _ rfl
        exact ih p hp (hv.step h hp hleaf)
      | false =>
        rw [if_neg Bool.false_ne_true]
        refine Ends.of_pure ⟨hv.trimmed, fun n => hv.left_iff h fun q hq => ?_⟩
        rwa [← Option.some.inj (hp.symm.trans hq)]

theorem ends_prune (h : t.WellFormed) (hx : x < t.nodes.size) :
    Ends (prune x) t
      (fun _ u => Trimmed t u ∧ ∀ n, u.isAttached n = true ↔ t.isAttached n = true ∧
        ∃ l, t.isLeaf l = true ∧ t.AtOrUnder l n ∧ ¬ t.AtOrUnder l x) fun _ _ => False := by
  refine Ends.get_bind ((ends_detach hx).bind ?_ fun _ _ hf => hf)
  rintro _ _ rfl
  exact ends_detachChildless_of_climbed h (.detach h x)

end Edit

/-- Of the attached nodes of the first tree the second has those that satisfy a condition, in the
same order and with the same labels. -/
structure Tree.Keeps (t u : Tree) (keep : NodeId → Bool) : Prop where
  size : u.arenaSize = t.arenaSize
  attached : u.attached = t.attached.filter keep
  label : ∀ n, u.label n = t.label n
  parent : ∀ n ∈ u.attached, u.parent n = t.parent n
  children : ∀ n ∈ u.attached, u.children n = (t.children n).filter keep
  isEmpty_iff : u.isEmpty = true ↔ ∀ n ∈ t.attached, keep n = false

theorem Tree.Trimmed.keeps {t u : Tree} (hu : Trimmed t u) (h : t.WellFormed) {keep : NodeId → Bool}
    (hkeep : ∀ n, u.isAttached n = true ↔ t.isAttached n = true ∧ keep n = true) :
    Keeps t u keep := by
  have hattached : ∀ n, t.isAttached n = true → u.isAttached n = keep n := by
    intro n hn
    rw [Bool.eq_iff_iff, hkeep]
    exact and_iff_right hn
  refine ⟨hu.size, ?_, hu.label, fun n hn => hu.parent h (hu.wellFormed.mem_attached_iff.mp hn),
    fun n hn => ?_, ?_⟩
  · rw [hu.attached h]
    exact List.filter_congr fun n hn => hattached n (h.mem_attached_iff.mp hn)
  · have hn := hu.wellFormed.mem_attached_iff.mp hn
    rw [hu.children n hn]
    refine List.filter_congr fun c hc => hattached c ?_
    rw [h.isAttached_of_parent ((h.mem_children_iff n c).mp hc)]
    exact hu.isAttached n hn
  · rw [isEmpty, Option.isNone_iff_eq_none, hu.root_eq_none_iff]
    constructor
    · exact fun hnone n hn => by rw [← hattached n (h.mem_attached_iff.mp hn), hnone]
    · intro hnone n
      refine Bool.eq_false_iff.mpr fun hn => ?_
      obtain ⟨hn, hkept⟩ := (hkeep n).mp hn
      rw [hnone n (h.mem_attached_iff.mpr hn)] at hkept
      exact absurd hkept Bool.false_ne_true

namespace Operation

variable {s : Surgery}

/-- **What deleting comes to.** -/
theorem deleted_run (h : s.tree.WellFormed) (marks : Marks) (names : List String) :
    ∃ t, ((delete names).run marks s).1 = { s with tree := t } ∧
      s.tree.Deleted t (s.nodesOf names) :=
  forEach_nodes (fun ids t => s.tree.Deleted t ids)
    (fun hu hid => (Edit.ends_detach hid).mono (fun _ _ ht => ht ▸ hu.detach h _) fun _ _ hf => hf)
    (fun hu hid => hu.append_unknown h hid) _ names (.refl h)

/-- **What pruning comes to.** -/
theorem pruned_run (h : s.tree.WellFormed) (marks : Marks) (names : List String) :
    ∃ t, ((prune names).run marks s).1 = { s with tree := t } ∧
      s.tree.Pruned t (s.nodesOf names) :=
  forEach_nodes (fun ids t => s.tree.Pruned t ids)
    (fun hu hid => (Edit.ends_prune hu.wellFormed hid).mono
      (fun _ _ hv => hu.prune h hv.1 hv.2) fun _ _ hf => hf)
    (fun hu hid => hu.append_unknown h hid) _ names (.refl h)

/-- What is left is the same if the same nodes are left. -/
theorem same_of_trimmed {t u v : Tree} (hu : Trimmed t u) (hv : Trimmed t v)
    (hsame : ∀ n, v.isAttached n = true ↔ u.isAttached n = true) :
    SameAttached u v ∧ v.whole = u.whole := by
  have hattached := hu.sameAttached hv fun n => Bool.eq_iff_iff.mpr (hsame n)
  exact ⟨hattached, hattached.whole_eq hu.wellFormed hv.wellFormed fun n =>
    (hv.label n).trans (hu.label n).symm⟩

/-- **Deleting leaves the attached nodes with no named node at or above them, and pruning those at
or above a leaf of this kind.** What is left keeps its number, its label and its place. No inner
node becomes a leaf by pruning, and the order of the names makes no difference. -/
theorem delete_prune_keep (h : s.tree.WellFormed) (marks : Marks) (names : List String) :
    let deleted := fun names => ((delete names).run marks s).1.tree
    let pruned := fun names => ((prune names).run marks s).1.tree
    let ids := s.nodesOf names
    s.tree.Keeps (deleted names) (fun n => !s.tree.isCovered ids n) ∧
    s.tree.Keeps (pruned names) (s.tree.isSpared ids) ∧
    (∀ n ∈ (pruned names).attached, (pruned names).isLeaf n = s.tree.isLeaf n) ∧
    ∀ names', (∀ n, n ∈ s.nodesOf names' ↔ n ∈ ids) →
      (SameAttached (deleted names) (deleted names') ∧
        (deleted names').whole = (deleted names).whole) ∧
      SameAttached (pruned names) (pruned names') ∧
        (pruned names').whole = (pruned names).whole := by
  intro deleted pruned ids
  have hdeleted : ∀ names, s.tree.Deleted (deleted names) (s.nodesOf names) := by
    intro names
    obtain ⟨t, hrun, ht⟩ := deleted_run h marks names
    rwa [show deleted names = t from congrArg Surgery.tree hrun]
  have hpruned : ∀ names, s.tree.Pruned (pruned names) (s.nodesOf names) := by
    intro names
    obtain ⟨t, hrun, ht⟩ := pruned_run h marks names
    rwa [show pruned names = t from congrArg Surgery.tree hrun]
  refine ⟨(hdeleted names).keeps h fun n => ?_,
    (hpruned names).keeps h (hpruned names).isAttached_iff, fun n hn => ?_, fun names' hsame => ?_⟩
  · rw [(hdeleted names).isAttached_iff, Bool.not_eq_true']
  · exact (hpruned names).isLeaf_eq h ((hpruned names).wellFormed.mem_attached_iff.mp hn)
  · refine ⟨same_of_trimmed (hdeleted names).toTrimmed (hdeleted names').toTrimmed fun n => ?_,
      same_of_trimmed (hpruned names).toTrimmed (hpruned names').toTrimmed fun n => ?_⟩
    · rw [(hdeleted names).isAttached_iff, (hdeleted names').isAttached_iff, isCovered_congr hsame]
    · rw [(hpruned names).isAttached_iff, (hpruned names').isAttached_iff, isSpared_congr hsame]

/-- In `(S (NP (D d) (N n)) (VP v))` the noun and what is above it, named in either order. Pruning
the two leaves of the noun phrase takes the phrase along. -/
theorem delete_prune_keep_nested :
    let t := Tree.ofConstituent (some (.node "S" [.node "NP" [.node "D" [.node "d" []],
      .node "N" [.node "n" []]], .node "VP" [.node "v" []]]))
    let s : Surgery := ⟨t, ⟨0, [some 2, some 4, some 5], ["d", "n", "leaf"]⟩, []⟩
    ((delete ["leaf", "n"]).run [] s).1.tree.attached = [0, 1, 2, 3, 6, 7] ∧
      ((prune ["n", "leaf", "d"]).run [] s).1.tree.attached = [0, 6, 7] ∧
      ((prune ["d", "n", "leaf"]).run [] s).1.tree.whole =
        ((prune ["n", "leaf", "d"]).run [] s).1.tree.whole := by
  intro t s
  have h : t.WellFormed := wellFormed_ofConstituent _
  have hdelete := (delete_prune_keep (s := s) h [] ["leaf", "n"]).1
  obtain ⟨_, hprune, _, horder⟩ := delete_prune_keep (s := s) h [] ["n", "leaf", "d"]
  have hsame : (s.nodesOf ["d", "n", "leaf"]).Perm (s.nodesOf ["n", "leaf", "d"]) := by decide
  exact ⟨hdelete.attached.trans (by decide +kernel), hprune.attached.trans (by decide +kernel),
    (horder _ fun n => hsame.mem_iff).2.2⟩

end Operation

end Constituency
