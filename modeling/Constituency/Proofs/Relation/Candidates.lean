import Mathlib.Data.List.Flatten
import Constituency.Proofs.Relation.Meaning

/-!
# Candidates are the nodes that stand in a relation

For an attached node, the candidates of a relation are the attached nodes to which it stands in
that relation (`mem_candidates_iff`). They are listed in the order of the way up if the relation
leads up, and else in pre-order (`candidates_sublist`). So no node is listed twice, and detached
nodes are not listed at all.

The relations fall into families that are each computed in one way: by a walk over the links, by a
look at the list of children of one node or of its parent, or by a comparison of the leaves that an
index has recorded.
-/

namespace Constituency

open Constituency.Tree

theorem toList_sublist {α : Type} {o : Option α} {as : List α} (h : ∀ x, o = some x → x ∈ as) :
    o.toList.Sublist as := by
  cases o with
  | none => exact List.nil_sublist as
  | some x => exact List.singleton_sublist.mpr (h x rfl)

/-! ## Children and their places -/

theorem nthOf_eq_some_iff (cs : List NodeId) (n : Int) (x : NodeId) :
    nthOf cs n = some x ↔ ∃ i : Nat, cs[i]? = some x ∧ (n = i + 1 ∨ n = i - cs.length) := by
  unfold nthOf
  split
  · rename_i hpos
    constructor
    · exact fun hx => ⟨_, hx, .inl (by omega)⟩
    · rintro ⟨i, hi, hn⟩
      have hlt := (List.getElem?_eq_some_iff.mp hi).1
      rwa [show n.toNat - 1 = i by omega]
  · split
    · rename_i hpos hneg
      rw [Bool.and_eq_true, decide_eq_true_iff, decide_eq_true_iff] at hneg
      constructor
      · exact fun hx => ⟨_, hx, .inr (by omega)⟩
      · rintro ⟨i, hi, hn⟩
        have hlt := (List.getElem?_eq_some_iff.mp hi).1
        rwa [show cs.length - (-n).toNat = i by omega]
    · rename_i hpos hneg
      rw [Bool.and_eq_true, decide_eq_true_iff, decide_eq_true_iff] at hneg
      constructor
      · exact fun hx => absurd hx (by simp)
      · rintro ⟨i, hi, hn⟩
        have hlt := (List.getElem?_eq_some_iff.mp hi).1
        omega

theorem mem_of_nthOf {cs : List NodeId} {n : Int} {x : NodeId} (hx : nthOf cs n = some x) :
    x ∈ cs := by
  obtain ⟨i, hi, _⟩ := (nthOf_eq_some_iff cs n x).mp hx
  exact List.mem_of_getElem? hi

namespace Tree

variable {t : Tree} {a x p q : NodeId} {i j : Nat}

theorem ChildAt.parent (h : t.WellFormed) (hx : t.ChildAt p i x) : t.parent x = some p :=
  (h.mem_children_iff p x).mp (List.mem_of_getElem? hx)

theorem exists_childAt (h : t.WellFormed) (hp : t.parent x = some p) : ∃ i, t.ChildAt p i x :=
  List.mem_iff_getElem?.mp ((h.mem_children_iff p x).mpr hp)

/-- A node has one place among the children of one parent. -/
theorem ChildAt.unique (h : t.WellFormed) (hp : t.ChildAt p i x) (hq : t.ChildAt q j x) :
    p = q ∧ i = j := by
  obtain rfl := Option.some.inj ((hp.parent h).symm.trans (hq.parent h))
  have hi : i < (t.children p).length := (List.getElem?_eq_some_iff.mp hp).1
  exact ⟨rfl, (List.getElem?_inj hi (h.children_nodup p)).mp (Eq.trans hp hq.symm)⟩

theorem lastChild_iff : t.LastChild p x ↔ (t.children p).getLast? = some x := by
  rw [List.getLast?_eq_getElem?]
  constructor
  · rintro ⟨i, hi, hlength⟩
    rwa [← hlength, Nat.add_sub_cancel]
  · intro hx
    have hlt := (List.getElem?_eq_some_iff.mp hx).1
    exact ⟨_, hx, by omega⟩

theorem firstChild_iff : t.FirstChild p x ↔ (t.children p).head? = some x := by
  rw [List.head?_eq_getElem?]
  exact Iff.rfl

theorem onlyChild_iff : t.OnlyChild p x ↔ t.onlyChild? p = some x := by
  unfold OnlyChild onlyChild?
  split
  · rename_i c hc
    rw [hc]
    simp
  · rename_i hnot
    exact ⟨fun hx => absurd hx (hnot x), fun hx => absurd hx (by simp)⟩

/-- An only child of a node that has one child. -/
theorem onlyChild_iff_length (h : t.WellFormed) :
    t.OnlyChild p x ↔ t.parent x = some p ∧ (t.children p).length = 1 := by
  rw [OnlyChild, ← h.mem_children_iff, List.length_eq_one_iff]
  constructor
  · intro hx
    exact ⟨hx ▸ List.mem_singleton_self x, x, hx⟩
  · rintro ⟨hmem, c, hc⟩
    rw [hc] at hmem ⊢
    rw [List.mem_singleton.mp hmem]

/-- A parent that the node and it satisfy a condition for. -/
theorem parentIf_eq_some_iff {keep : NodeId → NodeId → Bool} :
    t.parentIf keep a = some x ↔ t.parent a = some x ∧ keep x a = true :=
  Option.filter_eq_some_iff

/-- The parent, if the condition says that it is related to the node. -/
theorem mem_toList_parentIf_iff {keep : NodeId → NodeId → Bool} {related : NodeId → NodeId → Prop}
    (hkeep : ∀ p c, t.parent c = some p ∧ keep p c = true ↔ related p c) :
    x ∈ (t.parentIf keep a).toList ↔ related x a := by
  rw [Option.mem_toList, parentIf_eq_some_iff, hkeep]

/-- The nodes that the way up leads to, as long as the condition holds. -/
theorem mem_walk_parentIf_iff (h : t.WellFormed) {keep : NodeId → NodeId → Bool}
    {related : NodeId → NodeId → Prop}
    (hkeep : ∀ p c, t.parent c = some p ∧ keep p c = true ↔ related p c) :
    x ∈ t.walk (t.parentIf keep) a ↔ Relation.TransGen related x a := by
  rw [h.mem_walk_iff (t.follows_parentIf keep), ← Relation.transGen_swap]
  have hstep : (fun c p => t.parentIf keep c = some p) = Function.swap related := by
    funext c p
    rw [parentIf_eq_some_iff, hkeep]
  rw [hstep]

/-- The nodes that a walk down leads to. -/
theorem mem_walk_down_iff (h : t.WellFormed) {next : NodeId → Option NodeId}
    {related : NodeId → NodeId → Prop} (hnext : ∀ p c, related p c ↔ next p = some c)
    (hfollows : t.Follows next) : x ∈ t.walk next a ↔ Relation.TransGen related a x := by
  rw [h.mem_walk_iff hfollows]
  have hstep : (fun p c => next p = some c) = related := by
    funext p c
    rw [hnext]
  rw [hstep]

/-- The nodes on chains down from the children are those on chains down from the node. -/
theorem mem_flatMap_belowThrough_iff (h : t.WellFormed) (d : NodeId → Bool) :
    x ∈ (t.children a).flatMap (t.belowThrough d t.nodes.size) ↔ t.UnderVia d x a := by
  rw [List.mem_flatMap]
  constructor
  · rintro ⟨c, hc, hx⟩
    have hlink : t.parent c = some a := (h.mem_children_iff a c).mp hc
    obtain ⟨hxc, hbetween⟩ := (h.mem_belowThrough_iff d).mp hx
    refine ⟨.tail' hxc hlink, fun y hxy hya => hbetween y hxy ?_⟩
    -- the way from `x` over `y` to `a` ends at the same child
    obtain ⟨c', hyc', hc'⟩ := Relation.TransGen.tail'_iff.mp hya
    rwa [h.eq_of_atOrUnder_children hlink hc' hxc (hxy.to_reflTransGen.trans hyc')]
  · rintro ⟨hxa, hbetween⟩
    obtain ⟨c, hxc, hc⟩ := Relation.TransGen.tail'_iff.mp hxa
    refine ⟨c, (h.mem_children_iff a c).mpr hc, (h.mem_belowThrough_iff d).mpr ⟨hxc, ?_⟩⟩
    exact fun y hxy hyc => hbetween y hxy (.tail' hyc hc)

section keep

variable (h : t.WellFormed)

include h

theorem keeps_first (p c : NodeId) :
    t.parent c = some p ∧ ((t.children p).head? == some c) = true ↔ t.FirstChild p c := by
  rw [firstChild_iff, beq_iff_eq]
  exact ⟨And.right, fun hc => ⟨(h.mem_children_iff p c).mp (List.mem_of_head? hc), hc⟩⟩

theorem keeps_last (p c : NodeId) :
    t.parent c = some p ∧ ((t.children p).getLast? == some c) = true ↔ t.LastChild p c := by
  rw [lastChild_iff, beq_iff_eq]
  exact ⟨And.right, fun hc => ⟨(h.mem_children_iff p c).mp (List.mem_of_getLast? hc), hc⟩⟩

theorem keeps_only (p c : NodeId) :
    t.parent c = some p ∧ ((t.children p).length == 1) = true ↔ t.OnlyChild p c := by
  rw [onlyChild_iff_length h, beq_iff_eq]

theorem keeps_nth (n : Int) (p c : NodeId) :
    t.parent c = some p ∧ (nthOf (t.children p) n == some c) = true ↔ t.NthChild n p c := by
  rw [beq_iff_eq, nthOf_eq_some_iff]
  refine ⟨And.right, fun hc => ⟨?_, hc⟩⟩
  obtain ⟨i, hi, _⟩ := hc
  exact ChildAt.parent h hi

/-! ## Sisters -/

/-- The sisters of a node are the children of its parent before its place and after it. -/
theorem sisters_of_childAt (ha : t.ChildAt p i a) :
    t.sisters a = some ((t.children p).take i, (t.children p).drop (i + 1)) := by
  have hi : i < (t.children p).length := (List.getElem?_eq_some_iff.mp ha).1
  have hindex : (t.children p).idxOf? a = some i := by
    rw [List.idxOf?_eq_some_iff]
    refine ⟨hi, (List.getElem?_eq_some_iff.mp ha).2, fun j hj heq => ?_⟩
    have hsame : t.ChildAt p j a := List.getElem?_eq_some_iff.mpr ⟨by omega, heq⟩
    have := (hsame.unique h ha).2
    omega
  rw [sisters, ha.parent h]
  show ((t.children p).idxOf? a >>= _) = _
  rw [hindex]
  rfl

/-- A node without a parent has no sisters to look among. -/
theorem sisters_cases (a : NodeId) : t.sisters a = none ∨ ∃ p i, t.ChildAt p i a ∧
    t.sisters a = some ((t.children p).take i, (t.children p).drop (i + 1)) := by
  cases hp : t.parent a with
  | none =>
    refine .inl ?_
    rw [sisters, hp]
    rfl
  | some p =>
    obtain ⟨i, ha⟩ := exists_childAt h hp
    exact .inr ⟨p, i, ha, sisters_of_childAt h ha⟩

/-- What is picked among the sisters of a node is picked among the children of its parent. -/
theorem mem_pick_sisters_iff (pick : Option (List NodeId × List NodeId) → List NodeId)
    (hnone : pick none = []) : x ∈ pick (t.sisters a) ↔ ∃ p i, t.ChildAt p i a ∧
      x ∈ pick (some ((t.children p).take i, (t.children p).drop (i + 1))) := by
  constructor
  · intro hx
    obtain hsisters | ⟨p, i, ha, hsisters⟩ := sisters_cases h a
    · rw [hsisters, hnone] at hx
      exact absurd hx (by simp)
    · exact ⟨p, i, ha, hsisters ▸ hx⟩
  · rintro ⟨p, i, ha, hx⟩
    rwa [sisters_of_childAt h ha]

theorem mem_leftSisters_iff : x ∈ ((t.sisters a).map (·.1)).getD [] ↔
    ∃ p i j, t.ChildAt p i a ∧ t.ChildAt p j x ∧ j < i := by
  refine (mem_pick_sisters_iff h (fun s => (s.map (·.1)).getD []) rfl).trans ?_
  refine exists_congr fun p => exists_congr fun i => ?_
  rw [exists_and_left]
  refine and_congr_right fun ha => ?_
  have hi : i < (t.children p).length := (List.getElem?_eq_some_iff.mp ha).1
  refine List.mem_take_iff_getElem.trans ⟨?_, ?_⟩
  · rintro ⟨j, hj, rfl⟩
    exact ⟨j, List.getElem?_eq_getElem (by omega), by omega⟩
  · rintro ⟨j, hx, hlt⟩
    obtain ⟨hj, rfl⟩ := List.getElem?_eq_some_iff.mp hx
    exact ⟨j, by omega, rfl⟩

theorem mem_rightSisters_iff : x ∈ ((t.sisters a).map (·.2)).getD [] ↔
    ∃ p i j, t.ChildAt p i a ∧ t.ChildAt p j x ∧ i < j := by
  refine (mem_pick_sisters_iff h (fun s => (s.map (·.2)).getD []) rfl).trans ?_
  refine exists_congr fun p => exists_congr fun i => ?_
  rw [exists_and_left]
  refine and_congr_right fun _ => List.mem_drop_iff_getElem.trans ⟨?_, ?_⟩
  · rintro ⟨j, hj, rfl⟩
    exact ⟨_, List.getElem?_eq_getElem _, by omega⟩
  · rintro ⟨j, hx, hlt⟩
    obtain ⟨hj, rfl⟩ := List.getElem?_eq_some_iff.mp hx
    refine ⟨j - (i + 1), by omega, ?_⟩
    congr 1
    omega

theorem mem_nextSister_iff : x ∈ ((t.sisters a).bind (·.2.head?)).toList ↔
    ∃ p i, t.ChildAt p i a ∧ t.ChildAt p (i + 1) x := by
  refine (mem_pick_sisters_iff h (fun s => (s.bind (·.2.head?)).toList) rfl).trans ?_
  refine exists_congr fun p => exists_congr fun i => and_congr_right fun _ => ?_
  rw [Option.mem_toList, Option.bind_some, List.head?_drop]
  exact Iff.rfl

theorem mem_previousSister_iff : x ∈ ((t.sisters a).bind (·.1.getLast?)).toList ↔
    ∃ p i, t.ChildAt p i x ∧ t.ChildAt p (i + 1) a := by
  refine (mem_pick_sisters_iff h (fun s => (s.bind (·.1.getLast?)).toList) rfl).trans ?_
  refine exists_congr fun p => ?_
  -- the last of the first `i + 1` children is the one at place `i`
  have hlast : ∀ {i}, t.ChildAt p (i + 1) a →
      ((t.children p).take (i + 1)).getLast? = (t.children p)[i]? := by
    intro i ha
    have hlt := (List.getElem?_eq_some_iff.mp ha).1
    rw [List.getLast?_take, if_neg (Nat.succ_ne_zero i), Nat.add_sub_cancel,
      List.getElem?_eq_getElem (by omega), Option.some_or]
  simp only [Option.mem_toList, Option.bind_some]
  constructor
  · rintro ⟨i, ha, hx⟩
    cases i with
    | zero => exact absurd hx (by simp)
    | succ i => exact ⟨i, (hlast ha).symm.trans hx, ha⟩
  · rintro ⟨i, hx, ha⟩
    exact ⟨i + 1, ha, (hlast ha).trans hx⟩

theorem sister_eq {marks : Marks} {i : Index} {b : Bindings} (hp : t.parent a = some p) :
    Relation.candidates ⟨t, i, marks⟩ b a .sister = (t.children p).filter (· != a) := by
  rw [Relation.candidates, hp]
  dsimp only
  rw [if_pos (List.contains_iff_mem.mpr ((h.mem_children_iff p a).mpr hp))]

theorem mem_sister_iff {marks : Marks} {i : Index} {b : Bindings} :
    x ∈ Relation.candidates ⟨t, i, marks⟩ b a .sister ↔
      a ≠ x ∧ ∃ p, t.parent a = some p ∧ t.parent x = some p := by
  cases hp : t.parent a with
  | none =>
    rw [Relation.candidates, hp]
    constructor
    · exact fun hx => absurd hx (by simp)
    · rintro ⟨_, q, hq, _⟩
      exact absurd hq (by simp)
  | some p =>
    rw [sister_eq h hp, List.mem_filter, h.mem_children_iff, bne_iff_ne]
    constructor
    · rintro ⟨hx, hne⟩
      exact ⟨Ne.symm hne, p, rfl, hx⟩
    · rintro ⟨hne, q, hq, hx⟩
      exact ⟨Option.some.inj hq ▸ hx, Ne.symm hne⟩

end keep

/-! ## Leaves -/

/-- A comparison of the spans that an index has recorded compares the leaves of the nodes. -/
theorem mem_bySpan_iff (h : t.WellFormed) (ha : a ∈ t.attached) (hx : x ∈ t.attached)
    {holds : Span → Span → Bool} {related : Prop}
    (hrelated : ∀ s u, t.FirstLeaf a s.first → t.LastLeaf a s.last → t.FirstLeaf x u.first →
      t.LastLeaf x u.last → (holds s u = true ↔ related)) :
    x ∈ Relation.bySpan (Index.build t) a holds ↔ related := by
  obtain ⟨s, hs, hfirst, hlast, _⟩ := Index.span_build h ha
  obtain ⟨u, hu, hfirst', hlast', _⟩ := Index.span_build h hx
  rw [Relation.bySpan, hs]
  dsimp only
  rw [List.mem_filter, hu, Option.any_some, hrelated s u hfirst hlast hfirst' hlast']
  exact ⟨And.right, fun hr => ⟨hx, hr⟩⟩

/-- With the ends of both blocks at hand, one look decides which comes first. -/
theorem exists_leaf_iff (related : Nat → Nat → Prop) (hi : t.LastLeaf a i) (hj : t.FirstLeaf x j) :
    (∃ i j, t.LastLeaf a i ∧ t.FirstLeaf x j ∧ related i j) ↔ related i j := by
  constructor
  · rintro ⟨i', j', hi', hj', hr⟩
    rwa [hi.unique hi', hj.unique hj']
  · exact fun hr => ⟨i, j, hi, hj, hr⟩

end Tree

namespace Relation

variable {t : Tree} {marks : Marks} {b : Bindings} {a x : NodeId}

/-! ## All relations -/

/-- **The candidates are the nodes that stand in the relation.** -/
theorem mem_candidates_iff (h : t.WellFormed) (ha : a ∈ t.attached) (hx : x ∈ t.attached)
    (r : Relation) :
    x ∈ candidates ⟨t, Index.build t, marks⟩ b a r ↔ r.Holds t marks b a x := by
  cases r with
  | dominates =>
    rw [candidates, List.drop_one]
    exact h.mem_preorder_tail_iff
  | dominatedBy => exact h.mem_ancestors_iff
  | parentOf => exact h.mem_children_iff a x
  | childOf => exact Option.mem_toList
  | firstChild => rw [candidates, Option.mem_toList, Holds, firstChild_iff]
  | lastChild => rw [candidates, Option.mem_toList, Holds, lastChild_iff]
  | onlyChild => rw [candidates, Option.mem_toList, Holds, onlyChild_iff]
  | nthChild n =>
    rw [candidates, Option.mem_toList]
    exact nthOf_eq_some_iff (t.children a) n x
  | firstChildOf => exact mem_toList_parentIf_iff (keeps_first h)
  | lastChildOf => exact mem_toList_parentIf_iff (keeps_last h)
  | onlyChildOf => exact mem_toList_parentIf_iff (keeps_only h)
  | nthChildOf n => exact mem_toList_parentIf_iff (keeps_nth h n)
  | leftmostDescendant => exact mem_walk_down_iff h (fun _ _ => firstChild_iff) h.follows_head?
  | rightmostDescendant => exact mem_walk_down_iff h (fun _ _ => lastChild_iff) h.follows_getLast?
  | leftmostDescendantOf => exact mem_walk_parentIf_iff h (keeps_first h)
  | rightmostDescendantOf => exact mem_walk_parentIf_iff h (keeps_last h)
  | unaryDominates => exact mem_walk_down_iff h (fun _ _ => onlyChild_iff) h.follows_onlyChild?
  | unaryDominatedBy => exact mem_walk_parentIf_iff h (keeps_only h)
  | dominatesVia d => exact mem_flatMap_belowThrough_iff h _
  | dominatedByVia d => exact h.mem_takeThrough_ancestors_iff _
  | sister => exact mem_sister_iff h
  | leftSisterOf => exact mem_rightSisters_iff h
  | rightSisterOf => exact mem_leftSisters_iff h
  | immediateLeftSisterOf => exact mem_nextSister_iff h
  | immediateRightSisterOf => exact mem_previousSister_iff h
  | precedes =>
    refine mem_bySpan_iff h ha hx fun s u _ hlast hfirst _ => ?_
    rw [decide_eq_true_iff]
    exact (exists_leaf_iff (· < ·) hlast hfirst).symm
  | immediatelyPrecedes =>
    refine mem_bySpan_iff h ha hx fun s u _ hlast hfirst _ => ?_
    rw [beq_iff_eq]
    exact (exists_leaf_iff (fun i j => i + 1 = j) hlast hfirst).symm
  | follows =>
    refine mem_bySpan_iff h ha hx fun s u hfirst _ _ hlast => ?_
    rw [decide_eq_true_iff]
    exact (exists_leaf_iff (· < ·) hlast hfirst).symm
  | immediatelyFollows =>
    refine mem_bySpan_iff h ha hx fun s u hfirst _ _ hlast => ?_
    rw [beq_iff_eq]
    exact (exists_leaf_iff (fun i j => i + 1 = j) hlast hfirst).symm
  | equals => exact List.mem_singleton

/-- On the way up the nearest come first. -/
theorem candidates_sublist_ancestors (h : t.WellFormed) {i : Index} {r : Relation}
    (hup : r.isUpward = true) : (candidates ⟨t, i, marks⟩ b a r).Sublist (t.ancestors a) := by
  have hparent : ∀ keep, (t.parentIf keep a).toList.Sublist (t.ancestors a) := fun keep =>
    toList_sublist fun p hp =>
      h.mem_ancestors_iff.mpr (.single (parentIf_eq_some_iff.mp hp).1)
  cases r with
  | dominatedBy => exact .refl _
  | childOf => exact toList_sublist fun p hp => h.mem_ancestors_iff.mpr (.single hp)
  | firstChildOf | lastChildOf | onlyChildOf | nthChildOf n => exact hparent _
  | leftmostDescendantOf | rightmostDescendantOf | unaryDominatedBy =>
    exact h.walk_sublist_ancestors _ a
  | dominatedByVia d => exact takeThrough_sublist _ _
  | _ => exact absurd hup (by simp [isUpward])

/-- All other relations list their candidates in pre-order. -/
theorem candidates_sublist_attached (h : t.WellFormed) (ha : a ∈ t.attached) {r : Relation}
    (hup : r.isUpward = false) :
    (candidates ⟨t, Index.build t, marks⟩ b a r).Sublist t.attached := by
  have htail : (t.preorder a).tail.Sublist t.attached :=
    (List.tail_sublist _).trans (h.preorder_sublist_attached ha)
  have hchildren : (t.children a).Sublist t.attached := (h.children_sublist_preorder a).trans htail
  have hchild : ∀ {o : Option NodeId}, (∀ c, o = some c → c ∈ t.children a) →
      o.toList.Sublist t.attached := fun hc => (toList_sublist hc).trans hchildren
  have hwalk : ∀ {next : NodeId → Option NodeId},
      (∀ p c, next p = some c → c ∈ t.children p) → (t.walk next a).Sublist t.attached :=
    fun hc => (h.walk_sublist_preorder hc a).trans htail
  have hsisters : ∀ {p}, t.parent a = some p → (t.children p).Sublist t.attached := fun hp =>
    ((h.children_sublist_preorder _).trans (List.tail_sublist _)).trans
      (h.preorder_sublist_attached (h.parent_mem_attached ha hp))
  have hselected : ∀ pick : Option (List NodeId × List NodeId) → List NodeId, pick none = [] →
      (∀ cs i, (pick (some (cs.take i, cs.drop (i + 1)))).Sublist cs) →
      (pick (t.sisters a)).Sublist t.attached := by
    intro pick hnone hsome
    obtain hpick | ⟨p, i, hi, hpick⟩ := sisters_cases h a
    · rw [hpick, hnone]
      exact List.nil_sublist _
    · rw [hpick]
      exact (hsome _ i).trans (hsisters (hi.parent h))
  have hfiltered : ∀ holds, (bySpan (Index.build t) a holds).Sublist t.attached := by
    intro holds
    unfold bySpan
    split
    · exact List.nil_sublist _
    · exact List.filter_sublist
  cases r with
  | dominates => exact (List.drop_one ▸ htail : ((t.preorder a).drop 1).Sublist t.attached)
  | parentOf => exact hchildren
  | firstChild => exact hchild fun _ => List.mem_of_head?
  | lastChild => exact hchild fun _ => List.mem_of_getLast?
  | onlyChild => exact hchild fun _ => mem_children_of_onlyChild?
  | nthChild n => exact hchild fun _ => mem_of_nthOf
  | leftmostDescendant => exact hwalk fun _ _ => List.mem_of_head?
  | rightmostDescendant => exact hwalk fun _ _ => List.mem_of_getLast?
  | unaryDominates => exact hwalk fun _ _ => mem_children_of_onlyChild?
  | dominatesVia d =>
    have hbelow := List.Sublist.flatMap_right (t.children a) fun c _ =>
      WellFormed.belowThrough_sublist_preorder (d.holds t marks b) t c
    rw [h.preorder_eq, List.tail_cons] at htail
    exact hbelow.trans htail
  | sister =>
    cases hp : t.parent a with
    | none =>
      rw [candidates, hp]
      exact List.nil_sublist _
    | some p =>
      rw [sister_eq h hp]
      exact List.filter_sublist.trans (hsisters hp)
  | leftSisterOf =>
    exact hselected (fun s => (s.map Prod.snd).getD []) rfl fun _ _ => List.drop_sublist _ _
  | rightSisterOf =>
    exact hselected (fun s => (s.map Prod.fst).getD []) rfl fun _ _ => List.take_sublist _ _
  | immediateLeftSisterOf =>
    exact hselected (fun s => (s.bind (·.2.head?)).toList) rfl fun _ _ =>
      toList_sublist fun _ hx => List.mem_of_mem_drop (List.mem_of_head? hx)
  | immediateRightSisterOf =>
    exact hselected (fun s => (s.bind (·.1.getLast?)).toList) rfl fun _ _ =>
      toList_sublist fun _ hx => List.mem_of_mem_take (List.mem_of_getLast? hx)
  | precedes | immediatelyPrecedes | follows | immediatelyFollows => exact hfiltered _
  | equals => exact List.singleton_sublist.mpr ha
  | _ => exact absurd hup (by simp [isUpward])

/-- **A relation lists the nodes that stand in it**, each once and in order: the nearest first on
the way up, and else in pre-order. A node is listed from another one if and only if the converse
lists the other one from the node. -/
theorem candidates_exact (h : t.WellFormed) (marks : Marks) (b : Bindings) (r : Relation)
    (ha : a ∈ t.attached) :
    let scene : Scene := ⟨t, Index.build t, marks⟩
    (∀ x ∈ t.attached, x ∈ candidates scene b a r ↔ r.Holds t marks b a x) ∧
      (candidates scene b a r).Nodup ∧
      (∀ x ∈ candidates scene b a r, x ∈ t.attached) ∧
      (if r.isUpward then (candidates scene b a r).Pairwise t.Under
        else (candidates scene b a r).Sublist t.attached) ∧
      ∀ x ∈ t.attached, x ∈ candidates scene b a r ↔ a ∈ candidates scene b x r.converse := by
  intro scene
  have hconverse : ∀ x ∈ t.attached,
      x ∈ candidates scene b a r ↔ a ∈ candidates scene b x r.converse := by
    intro x hx
    rw [mem_candidates_iff h ha hx, mem_candidates_iff h hx ha, holds_converse]
  cases hup : r.isUpward with
  | true =>
    have hsub : (candidates scene b a r).Sublist (t.ancestors a) :=
      candidates_sublist_ancestors h hup
    refine ⟨fun x hx => mem_candidates_iff h ha hx r, (h.ancestors_nodup a).sublist hsub,
      fun x hx => ?_, ?_, hconverse⟩
    · exact h.mem_attached_of_atOrUnder ha (h.mem_ancestors_iff.mp (hsub.subset hx)).to_reflTransGen
    · rw [if_pos rfl]
      exact (h.ancestors_pairwise a).sublist hsub
  | false =>
    have hsub : (candidates scene b a r).Sublist t.attached := candidates_sublist_attached h ha hup
    refine ⟨fun x hx => mem_candidates_iff h ha hx r, h.attached_nodup.sublist hsub,
      fun x hx => hsub.subset hx, ?_, hconverse⟩
    rw [if_neg Bool.false_ne_true]
    exact hsub

/-- In `(S (A (B b)) (C c))` the way from `b` up to `A` has one child at each step, and `S` is the
last of those that dominate `b`. -/
theorem candidates_exact_of_chain :
    let c : Constituent :=
      .node "S" [.node "A" [.node "B" [.node "b" []]], .node "C" [.node "c" []]]
    let t := Tree.ofConstituent (some c)
    let scene : Scene := ⟨t, Index.build t, []⟩
    t.WellFormed ∧ 3 ∈ t.attached ∧ candidates scene [] 3 .unaryDominatedBy = [2, 1] ∧
      candidates scene [] 3 .dominatedBy = [2, 1, 0] ∧ Relation.TransGen t.OnlyChild 1 3 := by
  intro c t scene
  have h : t.WellFormed := Tree.wellFormed_ofConstituent (some c)
  have hattached : 3 ∈ t.attached := by decide
  have hlisted : candidates scene [] 3 .unaryDominatedBy = [2, 1] := by decide
  refine ⟨h, hattached, hlisted, by decide, ?_⟩
  exact ((candidates_exact h [] [] .unaryDominatedBy hattached).1 1 (by decide)).mp
    (by decide)

end Relation

end Constituency
