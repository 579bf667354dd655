import Mathlib.Data.List.Pairwise
import Constituency.Proofs.Relation.Candidates
import Constituency.Proofs.Tree.Requests

/-!
# Two nodes are nested, or one precedes the other

The leaves that an attached node covers are an interval. A leaf that two nodes cover is below both
of them, and the way up from it meets one of the two before the other: then one dominates the other,
and the intervals are nested. Nodes without a common leaf have disjoint intervals, and one of these
ends before the other begins. So of two different nodes either one dominates the other or one
precedes the other, and never both (`Relation.one_order`). That is so for nodes with one interval
too: these are on a chain of only children, and the upper one dominates the lower one.

Where one interval ends and the other does not begin with the next leaf, this leaf is a node between
them. So a node precedes another one immediately if and only if no node comes between them.
-/

namespace Constituency

open Constituency.Tree

namespace Tree

variable {t : Tree} {a x n : NodeId} {i j k : Nat}

/-! ## Intervals of leaves -/

theorem Covers.mono (hk : t.Covers x k) (hxa : t.AtOrUnder x a) : t.Covers a k := by
  obtain ⟨l, hl, hlx⟩ := hk
  exact ⟨l, hl, hlx.trans hxa⟩

/-- What an attached node covers, without an index. -/
theorem exists_interval (h : t.WellFormed) (hn : n ∈ t.attached) :
    ∃ i j, t.FirstLeaf n i ∧ t.LastLeaf n j ∧ ∀ k, t.Covers n k ↔ i ≤ k ∧ k ≤ j := by
  obtain ⟨s, _, hfirst, hlast, hcovers⟩ := Index.span_build h hn
  exact ⟨s.first, s.last, hfirst, hlast, hcovers⟩

/-- Nodes with a leaf in common are nested. -/
theorem nested_of_covers (ha : t.Covers a k) (hx : t.Covers x k) :
    t.AtOrUnder a x ∨ t.AtOrUnder x a := by
  obtain ⟨l, hl, hla⟩ := ha
  obtain ⟨m, hm, hmx⟩ := hx
  obtain rfl := Option.some.inj (hl.symm.trans hm)
  exact WellFormed.nested_of_atOrUnder hla hmx

theorem nested_or_precedes (h : t.WellFormed) (ha : a ∈ t.attached) (hx : x ∈ t.attached) :
    (t.AtOrUnder a x ∨ t.AtOrUnder x a) ∨ t.Precedes a x ∨ t.Precedes x a := by
  obtain ⟨i, j, hi, hj, ha⟩ := exists_interval h ha
  obtain ⟨i', j', hi', hj', hx⟩ := exists_interval h hx
  by_cases hax : j < i'
  · exact .inr (.inl ⟨j, i', hj, hi', hax⟩)
  · by_cases hxa : j' < i
    · exact .inr (.inr ⟨j', i, hj', hi, hxa⟩)
    · -- the intervals overlap where the later one begins
      have hij := (ha i).mp hi.1
      have hij' := (hx i').mp hi'.1
      exact .inl (nested_of_covers ((ha (max i i')).mpr (by omega))
        ((hx (max i i')).mpr (by omega)))

theorem not_precedes_of_atOrUnder (hxa : t.AtOrUnder x a) :
    ¬ t.Precedes a x ∧ ¬ t.Precedes x a := by
  constructor
  · rintro ⟨i, j, hi, hj, hlt⟩
    exact absurd (hi.2 (Covers.mono hj.1 hxa)) (Nat.not_le.mpr hlt)
  · rintro ⟨i, j, hi, hj, hlt⟩
    exact absurd (hj.2 (Covers.mono hi.1 hxa)) (Nat.not_le.mpr hlt)

theorem Precedes.asymm (hax : t.Precedes a x) : ¬ t.Precedes x a := by
  rintro ⟨i', j', hi', hj', hlt'⟩
  obtain ⟨i, j, hi, hj, hlt⟩ := hax
  have hx : j ≤ i' := hi'.2 hj.1
  have ha : j' ≤ i := hi.2 hj'.1
  omega

/-! ## The leaf between two nodes -/

/-- A leaf covers itself, and nothing else. -/
theorem covers_leaf_iff (h : t.WellFormed) (hl : t.leaves[i]? = some n) : t.Covers n k ↔ k = i := by
  have hleaf : t.isLeaf n = true := (List.mem_filter.mp (List.mem_of_getElem? hl)).2
  constructor
  · rintro ⟨m, hm, hmn⟩
    have hmem : m ∈ t.preorder n := h.mem_preorder_iff.mpr hmn
    rw [h.preorder_eq, List.isEmpty_iff.mp hleaf, List.flatMap_nil, List.mem_singleton] at hmem
    subst hmem
    have hk : k < t.leaves.length := (List.getElem?_eq_some_iff.mp hm).1
    exact (List.getElem?_inj hk (leaves_nodup h)).mp (hm.trans hl.symm)
  · rintro rfl
    exact ⟨n, hl, .refl⟩

theorem exists_between (h : t.WellFormed) (hi : t.LastLeaf a i) (hj : t.FirstLeaf x j)
    (hgap : i + 1 < j) : ∃ c ∈ t.attached, t.Precedes a c ∧ t.Precedes c x := by
  obtain ⟨l, hl, _⟩ := hj.1
  have hlength : j < t.leaves.length := (List.getElem?_eq_some_iff.mp hl).1
  obtain ⟨c, hc⟩ : ∃ c, t.leaves[i + 1]? = some c :=
    ⟨_, List.getElem?_eq_getElem (Nat.lt_trans hgap hlength)⟩
  have hcovers : ∀ k, t.Covers c k ↔ k = i + 1 := fun k => covers_leaf_iff h hc
  have hfirst : t.FirstLeaf c (i + 1) :=
    ⟨(hcovers _).mpr rfl, fun k hk => ((hcovers k).mp hk).ge⟩
  have hlast : t.LastLeaf c (i + 1) :=
    ⟨(hcovers _).mpr rfl, fun k hk => ((hcovers k).mp hk).le⟩
  exact ⟨c, (List.mem_filter.mp (List.mem_of_getElem? hc)).1,
    ⟨i, i + 1, hi, hfirst, Nat.lt_succ_self i⟩, ⟨i + 1, j, hlast, hj, hgap⟩⟩

/-- **One node precedes another one immediately if and only if no node comes between them.** -/
theorem immediatelyPrecedes_iff (h : t.WellFormed) :
    t.ImmediatelyPrecedes a x ↔
      t.Precedes a x ∧ ¬ ∃ c ∈ t.attached, t.Precedes a c ∧ t.Precedes c x := by
  constructor
  · rintro ⟨i, j, hi, hj, rfl⟩
    refine ⟨⟨i, i + 1, hi, hj, Nat.lt_succ_self i⟩, ?_⟩
    rintro ⟨c, _, ⟨i', k, hi', hk, hlt⟩, ⟨k', j', hk', hj', hlt'⟩⟩
    obtain rfl := hi.unique hi'
    obtain rfl := hj.unique hj'
    have hkk' : k ≤ k' := hk'.2 hk.1
    omega
  · rintro ⟨⟨i, j, hi, hj, hlt⟩, hnone⟩
    refine ⟨i, j, hi, hj, ?_⟩
    by_contra hne
    exact hnone (exists_between h hi hj (by omega))

end Tree

namespace Relation

variable {t u : Tree} {marks : Marks} {b : Bindings} {a x : NodeId}

/-- Of relations that exclude each other pairwise, and of which one holds, exactly one holds. -/
theorem existsUnique_of_pairwise {holds : Relation → Prop} {rs : List Relation}
    (hexcluded : rs.Pairwise fun r s => ¬ (holds r ∧ holds s)) (hsome : ∃ r ∈ rs, holds r) :
    ∃! r, r ∈ rs ∧ holds r := by
  obtain ⟨r, hr, hholds⟩ := hsome
  refine ⟨r, ⟨hr, hholds⟩, fun s ⟨hs, hholds'⟩ => ?_⟩
  by_contra hne
  have : Std.Symm fun r s => ¬ (holds r ∧ holds s) := ⟨fun _ _ hnot hboth => hnot hboth.symm⟩
  exact hexcluded.forall hs hr hne ⟨hholds', hholds⟩

/-- Two different attached nodes stand in exactly one of four relations. -/
theorem one_order (h : t.WellFormed) (ha : a ∈ t.attached) (hx : x ∈ t.attached) (hne : a ≠ x) :
    ∃! r, r ∈ [dominates, dominatedBy, precedes, follows] ∧ r.Holds t marks b a x := by
  refine existsUnique_of_pairwise ?_ ?_
  · have hcycle : ¬ (t.Under x a ∧ t.Under a x) := fun hboth =>
      h.acyclic x (hboth.1.trans hboth.2)
    have hbelow : ¬ (t.Under x a ∧ t.Precedes a x) ∧ ¬ (t.Under x a ∧ t.Precedes x a) :=
      ⟨fun hboth => (not_precedes_of_atOrUnder hboth.1.to_reflTransGen).1 hboth.2,
        fun hboth => (not_precedes_of_atOrUnder hboth.1.to_reflTransGen).2 hboth.2⟩
    have habove : ¬ (t.Under a x ∧ t.Precedes a x) ∧ ¬ (t.Under a x ∧ t.Precedes x a) :=
      ⟨fun hboth => (not_precedes_of_atOrUnder hboth.1.to_reflTransGen).2 hboth.2,
        fun hboth => (not_precedes_of_atOrUnder hboth.1.to_reflTransGen).1 hboth.2⟩
    have hasymm : ¬ (t.Precedes a x ∧ t.Precedes x a) := fun hboth => hboth.1.asymm hboth.2
    simp only [List.pairwise_cons, List.forall_mem_cons, List.not_mem_nil, false_implies,
      implies_true, and_true, List.Pairwise.nil, Holds]
    exact ⟨⟨hcycle, hbelow.1, hbelow.2⟩, ⟨habove.1, habove.2⟩, hasymm⟩
  · have hstrict : ∀ {m n}, m ≠ n → t.AtOrUnder m n → t.Under m n := fun hmn hle =>
      (Relation.reflTransGen_iff_eq_or_transGen.mp hle).resolve_left (Ne.symm hmn)
    rcases nested_or_precedes h ha hx with (hax | hxa) | hax | hxa
    · exact ⟨dominatedBy, by simp, hstrict hne hax⟩
    · exact ⟨dominates, by simp, hstrict (Ne.symm hne) hxa⟩
    · exact ⟨precedes, by simp, hax⟩
    · exact ⟨follows, by simp, hxa⟩

/-- **Of two different attached nodes exactly one of four holds**, as the candidates tell: the first
dominates the second, is dominated by it, precedes it or follows it. It precedes it immediately if
and only if it precedes it and no third node comes between them. Edits do not change that. -/
theorem candidates_exactly_one (h : t.WellFormed) (hedits : Edits t u) (marks : Marks)
    (b : Bindings) (ha : a ∈ u.attached) (hx : x ∈ u.attached) (hne : a ≠ x) :
    let scene : Scene := ⟨u, Index.build u, marks⟩
    (∃! r, r ∈ [dominates, dominatedBy, precedes, follows] ∧ x ∈ candidates scene b a r) ∧
      (x ∈ candidates scene b a immediatelyPrecedes ↔
        x ∈ candidates scene b a precedes ∧
          ¬ ∃ c ∈ u.attached, c ∈ candidates scene b a precedes ∧
            x ∈ candidates scene b c precedes) := by
  intro scene
  have hu : u.WellFormed := (h.edits hedits).1
  constructor
  · simp only [scene, mem_candidates_iff hu ha hx]
    exact one_order hu ha hx hne
  · rw [mem_candidates_iff hu ha hx, mem_candidates_iff hu ha hx]
    refine (immediatelyPrecedes_iff hu).trans (and_congr_right fun _ => not_congr ?_)
    refine exists_congr fun c => and_congr_right fun hc => ?_
    rw [mem_candidates_iff hu ha hc, mem_candidates_iff hu hc hx]
    exact Iff.rfl

/-- In `(S (A (B b)) (C c))` the nodes `A` and `b` cover the same leaf, which is the only one after
`C` was detached. -/
theorem candidates_exactly_one_of_chain :
    let c : Constituent :=
      .node "S" [.node "A" [.node "B" [.node "b" []]], .node "C" [.node "c" []]]
    let t := Tree.ofConstituent (some c)
    let u := (t.perform (.detach 4)).1
    t.WellFormed ∧ Edits t u ∧ 1 ∈ u.attached ∧ 3 ∈ u.attached ∧ (1 : NodeId) ≠ 3 ∧
      ∃! r, r ∈ [dominates, dominatedBy, precedes, follows] ∧
        3 ∈ candidates ⟨u, Index.build u, []⟩ [] 1 r := by
  intro c t u
  have h : t.WellFormed := Tree.wellFormed_ofConstituent (some c)
  have hedits : Edits t u := .single (by decide)
  have ha : 1 ∈ u.attached := by decide
  have hx : 3 ∈ u.attached := by decide
  exact ⟨h, hedits, ha, hx, by decide,
    (candidates_exactly_one h hedits [] [] ha hx (by decide)).1⟩

end Relation

end Constituency
