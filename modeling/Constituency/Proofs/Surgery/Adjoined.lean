import Constituency.Proofs.Surgery.Adjoining

/-!
# What an adjunction leaves as it was

The three modes differ in the node that stands in the place of the target, in the node that has the
former children of the target, and in the node that is given up (`AdjunctionMode.inPlace`, `.holder`
and `.discarded`). Said with these, the rest is the same for all of them (`Adjoined`).

Which nodes are attached is seen by naming for each the one that lists it: `supported` goes over the
nodes attached before and over those on the way from the foot up.
-/

namespace Constituency

open Constituency.Tree

namespace Tree.Adjunction

variable {t u : Tree} {target root foot : NodeId} (h : t.Adjunction target root foot)

include h

/-! ## The lists of children -/

/-- An attached node has one node in the place of the target. -/
theorem adjoinedChildren_of_isAttached (mode : AdjunctionMode) {q : NodeId}
    (hq : t.isAttached q = true) (hne : q ≠ target) :
    t.adjoinedChildren target root foot mode q =
      inPlaceOf target [mode.inPlace target root foot] (t.children q) := by
  cases mode with
  | root => rw [adjoinedChildren, if_neg (h.ne_foot hq), if_neg hne, AdjunctionMode.inPlace]
  | head =>
    rw [adjoinedChildren, if_neg hne, if_neg (h.ne_root hq), if_neg (h.ne_foot hq),
      AdjunctionMode.inPlace, inPlaceOf_self]
  | foot =>
    rw [adjoinedChildren, AdjunctionMode.inPlace]
    split
    · rename_i hfr
      rw [hfr, inPlaceOf_inPlaceOf (h.root_notMem q)]
    · rename_i hfr
      refine inPlaceOf_of_notMem fun hmem => ?_
      rcases mem_inPlaceOf.mp hmem with ⟨hf, _⟩ | ⟨_, hf⟩
      · exact h.foot_notMem hq hf
      · exact hfr (List.mem_singleton.mp hf)

theorem adjoinedChildren_holder (mode : AdjunctionMode) :
    t.adjoinedChildren target root foot mode (mode.holder target root foot) =
      t.children target := by
  have htf := h.ne_foot h.target_attached
  cases mode with
  | root => rw [AdjunctionMode.holder, adjoinedChildren, if_pos rfl]
  | head =>
    rw [AdjunctionMode.holder, adjoinedChildren]
    by_cases hfr : foot = root
    · rw [if_pos hfr, if_pos rfl, if_pos hfr]
    · rw [if_neg hfr, if_neg (Ne.symm htf), if_neg hfr, if_pos rfl]
  | foot =>
    have hself : inPlaceOf target [root] (t.children target) = t.children target :=
      inPlaceOf_of_notMem h.target_notMem_self
    rw [AdjunctionMode.holder, adjoinedChildren, hself,
      inPlaceOf_of_notMem (h.foot_notMem h.target_attached)]

/-- The node that is given up is in no list. -/
theorem discarded_notMem (mode : AdjunctionMode) (q : NodeId) :
    mode.discarded target root foot ∉ t.adjoinedChildren target root foot mode q := by
  cases mode with
  | root =>
    rw [AdjunctionMode.discarded, adjoinedChildren]
    split
    · exact h.target_notMem_self
    · split
      · exact List.not_mem_nil
      · simp [mem_inPlaceOf, h.ne_root h.target_attached]
  | head =>
    rw [AdjunctionMode.discarded, adjoinedChildren]
    have hnot := h.root_notMem
    split
    · split <;> exact hnot _
    · split
      · exact List.not_mem_nil
      · split <;> exact hnot _
  | foot =>
    rw [AdjunctionMode.discarded, adjoinedChildren, mem_inPlaceOf]
    simp [Ne.symm (h.ne_foot h.target_attached)]

/-- Other attached nodes are where they were. -/
theorem mem_adjoinedChildren_iff (mode : AdjunctionMode) {q p : NodeId}
    (hq : t.isAttached q = true) (hne : q ≠ target) (hout : q ∉ t.children target) :
    q ∈ t.adjoinedChildren target root foot mode p ↔ q ∈ t.children p := by
  have hdetached : ∀ p, t.isAttached p = false → q ∉ t.children p := by
    intro p hp hmem
    rw [← h.isAttached_of_mem hmem, hq] at hp
    exact absurd hp (by simp)
  have hfoot := hdetached foot (h.not_isAttached_above .refl)
  have hroot := hdetached root (h.not_isAttached_above h.foot_below)
  cases mode with
  | root =>
    rw [adjoinedChildren]
    by_cases hpf : p = foot
    · simp [hpf, hout, hfoot]
    · by_cases hpt : p = target
      · simp [hpt, hout]
      · simp [hpf, hpt, mem_inPlaceOf, hne, h.ne_root hq]
  | head =>
    rw [adjoinedChildren]
    by_cases hpt : p = target
    · rw [if_pos hpt, hpt]
      split <;> simp [hout, hroot]
    · rw [if_neg hpt]
      by_cases hpr : p = root
      · rw [if_pos hpr, hpr]
        simp [hroot]
      · rw [if_neg hpr]
        by_cases hpf : p = foot
        · rw [if_pos hpf, hpf]
          simp [hout, hfoot]
        · rw [if_neg hpf]
  | foot =>
    simp [adjoinedChildren, mem_inPlaceOf, hne, h.ne_root hq, h.ne_foot hq]

/-- The new node is where the target was. -/
theorem inPlace_mem_adjoinedChildren_iff (mode : AdjunctionMode) {p : NodeId} :
    mode.inPlace target root foot ∈ t.adjoinedChildren target root foot mode p ↔
      target ∈ t.children p := by
  have htr := h.ne_root h.target_attached
  have htf := h.ne_foot h.target_attached
  have hself := h.target_notMem_self
  have hroot := h.root_notMem
  have hoffFoot := h.target_notMem (h.not_isAttached_above .refl)
  have hoffRoot := h.target_notMem (h.not_isAttached_above h.foot_below)
  cases mode with
  | root =>
    rw [AdjunctionMode.inPlace, adjoinedChildren]
    by_cases hpf : p = foot
    · simp [hpf, hroot, hoffFoot]
    · rw [if_neg hpf]
      by_cases hpt : p = target
      · simp [hpt, hself]
      · simp [hpt, mem_inPlaceOf, hroot]
  | head =>
    rw [AdjunctionMode.inPlace, adjoinedChildren]
    by_cases hpt : p = target
    · rw [if_pos hpt, hpt]
      split <;> simp [hself, hoffRoot]
    · rw [if_neg hpt]
      by_cases hpr : p = root
      · simp [hpr, hoffRoot]
      · rw [if_neg hpr]
        by_cases hpf : p = foot
        · simp [hpf, hself, hoffFoot]
        · rw [if_neg hpf]
  | foot =>
    rw [AdjunctionMode.inPlace, adjoinedChildren]
    by_cases hfr : foot = root
    · rw [if_pos hfr, hfr, inPlaceOf_inPlaceOf (hroot p), inPlaceOf_self]
    · simp [hfr, mem_inPlaceOf, hroot, Ne.symm hfr, Ne.symm htr]

/-- On the way from the foot up nodes stay where they are, the given up one apart. -/
theorem mem_adjoinedChildren_of_above (mode : AdjunctionMode) {a b : NodeId}
    (ha : t.AtOrUnder foot a) (hmem : a ∈ t.children b)
    (hna : a ≠ mode.discarded target root foot) (hnb : b ≠ mode.discarded target root foot) :
    a ∈ t.adjoinedChildren target root foot mode b := by
  have hb : t.isAttached b = false :=
    h.not_isAttached_above (ha.tail ((h.wellFormed.mem_children_iff b a).mp hmem))
  have hbf : b ≠ foot := fun heq =>
    h.wellFormed.not_mem_children_of_atOrUnder (p := foot) ha (heq ▸ hmem)
  have hbt : b ≠ target := fun heq => by
    rw [heq, h.target_attached] at hb
    exact absurd hb (by simp)
  have hat : a ≠ target := (h.ne_of_above h.target_attached ha).symm
  cases mode with
  | root =>
    rw [adjoinedChildren, if_neg hbf, if_neg hbt, mem_inPlaceOf]
    exact .inl ⟨hmem, hat⟩
  | head =>
    have hbr : b ≠ root := hnb
    rw [adjoinedChildren, if_neg hbt, if_neg hbr, if_neg hbf]
    exact hmem
  | foot => exact mem_inPlaceOf.mpr (.inl ⟨mem_inPlaceOf.mpr (.inl ⟨hmem, hat⟩), hna⟩)

/-! ## What is attached

The nodes that an adjunction keeps are those attached before and those on the way from the foot up,
and each of them is the root or listed by another one. -/

omit h in
/-- The nodes that are attached or on the way from the foot up, and not given up. -/
def Kept (_ : t.Adjunction target root foot) (mode : AdjunctionMode) (n : NodeId) : Prop :=
  (t.isAttached n = true ∨ t.AtOrUnder foot n) ∧ n ≠ mode.discarded target root foot

omit h in
/-- A node that is the root after an adjunction, or listed by a node that is kept. -/
def Supported (h : t.Adjunction target root foot) (mode : AdjunctionMode) (n : NodeId) : Prop :=
  (if t.root = some target then some (mode.inPlace target root foot) else t.root) = some n ∨
    ∃ p, h.Kept mode p ∧ n ∈ t.adjoinedChildren target root foot mode p

theorem kept_of_isAttached (mode : AdjunctionMode) {n : NodeId} (hn : t.isAttached n = true)
    (hne : n ≠ target) : h.Kept mode n := by
  refine ⟨.inl hn, ?_⟩
  cases mode with
  | root => exact hne
  | head => exact h.ne_root hn
  | foot => exact h.ne_foot hn

theorem kept_holder (mode : AdjunctionMode) : h.Kept mode (mode.holder target root foot) := by
  have htr := h.ne_root h.target_attached
  have htf := h.ne_foot h.target_attached
  cases mode with
  | root => exact ⟨.inr .refl, htf.symm⟩
  | head =>
    rw [AdjunctionMode.holder]
    split
    · exact ⟨.inl h.target_attached, htr⟩
    · rename_i hfr
      exact ⟨.inr .refl, hfr⟩
  | foot => exact ⟨.inl h.target_attached, htf⟩

theorem supported_inPlace (mode : AdjunctionMode) :
    h.Supported mode (mode.inPlace target root foot) := by
  cases hp : t.parent target with
  | none => exact .inl (if_pos (h.wellFormed.root_of_parent_none h.target_attached hp))
  | some p =>
    have hmem := (h.wellFormed.mem_children_iff p target).mpr hp
    refine .inr ⟨p, h.kept_of_isAttached mode ?_ fun heq => h.target_notMem_self (heq ▸ hmem),
      (h.inPlace_mem_adjoinedChildren_iff mode).mpr hmem⟩
    rw [← h.isAttached_of_mem hmem, h.target_attached]

theorem supported_of_isAttached (mode : AdjunctionMode) {n : NodeId} (hn : t.isAttached n = true)
    (hne : n ≠ target) : h.Supported mode n := by
  by_cases hout : n ∈ t.children target
  · exact .inr ⟨_, h.kept_holder mode, (h.adjoinedChildren_holder mode).symm ▸ hout⟩
  · cases hp : t.parent n with
    | none =>
      have hr := h.wellFormed.root_of_parent_none hn hp
      refine .inl ?_
      rw [if_neg fun ht => hne (Option.some.inj (hr.symm.trans ht)), hr]
    | some p =>
      have hmem := (h.wellFormed.mem_children_iff p n).mpr hp
      refine .inr ⟨p, h.kept_of_isAttached mode ?_ fun heq => hout (heq ▸ hmem),
        (h.mem_adjoinedChildren_iff mode hn hne hout).mpr hmem⟩
      rw [← h.isAttached_of_mem hmem, hn]

/-- The target, where it is not given up, keeps its place or gets that of the foot. -/
theorem supported_target (mode : AdjunctionMode)
    (hne : target ≠ mode.discarded target root foot) : h.Supported mode target := by
  cases mode with
  | root => exact absurd rfl hne
  | head => exact h.supported_inPlace .head
  | foot =>
    rcases Relation.ReflTransGen.cases_head h.foot_below with hfr | ⟨p, hp, _⟩
    · have hplace := h.supported_inPlace .foot
      rwa [AdjunctionMode.inPlace, if_pos hfr] at hplace
    · have hmem := (h.wellFormed.mem_children_iff p foot).mpr hp
      have hpf : p ≠ foot := fun heq =>
        h.wellFormed.not_mem_children_of_atOrUnder (p := foot) .refl (heq ▸ hmem)
      have hft : foot ≠ target := (h.ne_foot h.target_attached).symm
      exact .inr ⟨p, ⟨.inr (.single hp), hpf⟩, mem_inPlaceOf.mpr
        (.inr ⟨mem_inPlaceOf.mpr (.inl ⟨hmem, hft⟩), List.mem_singleton_self target⟩)⟩

theorem supported_of_above (mode : AdjunctionMode) {n : NodeId} (hn : t.AtOrUnder foot n)
    (hne : n ≠ mode.discarded target root foot) : h.Supported mode n := by
  cases hp : t.parent n with
  | none =>
    -- only the root of the detached tree is a top
    obtain rfl : n = root := by
      rw [← h.wellFormed.summit_eq hp hn, h.wellFormed.summit_eq h.root_loose.free h.foot_below]
    have hplace := h.supported_inPlace mode
    cases mode with
    | root => exact hplace
    | head => exact absurd rfl hne
    | foot =>
      have hfr : foot ≠ n := Ne.symm hne
      rwa [AdjunctionMode.inPlace, if_neg hfr] at hplace
  | some p =>
    have hmem := (h.wellFormed.mem_children_iff p n).mpr hp
    by_cases hpd : p = mode.discarded target root foot
    · rw [hpd] at hmem
      cases mode with
      | root =>
        have hattached := h.isAttached_of_mem hmem
        rw [h.not_isAttached_above hn, AdjunctionMode.discarded, h.target_attached] at hattached
        exact absurd hattached (by simp)
      | head =>
        -- the children of the root come to the target
        have hfr : foot ≠ root := fun heq =>
          h.wellFormed.not_mem_children_of_atOrUnder (p := foot) hn (heq ▸ hmem)
        refine .inr ⟨target, ⟨.inl h.target_attached, h.ne_root h.target_attached⟩, ?_⟩
        rw [adjoinedChildren, if_pos rfl, if_neg hfr]
        exact hmem
      | foot => exact absurd hmem (h.wellFormed.not_mem_children_of_atOrUnder (p := foot) hn)
    · exact .inr ⟨p, ⟨.inr (hn.tail hp), hpd⟩,
        h.mem_adjoinedChildren_of_above mode hn hmem hne hpd⟩

/-- **What an adjunction keeps** is the root or listed by what it keeps. -/
theorem supported_of_kept (mode : AdjunctionMode) {n : NodeId} (hn : h.Kept mode n) :
    h.Supported mode n := by
  obtain ⟨hattached | habove, hne⟩ := hn
  · by_cases hnt : n = target
    · rw [hnt] at hne ⊢
      exact h.supported_target mode hne
    · exact h.supported_of_isAttached mode hattached hnt
  · exact h.supported_of_above mode habove hne

end Tree.Adjunction

/-! ## The outcome -/

/-- What adjoining leaves in `u` of the tree `t` and of the detached tree of `root` with its foot
that `g` has besides. -/
structure Adjoined (mode : AdjunctionMode) (t g u : Tree) (target root foot : NodeId) : Prop where
  wellFormed : u.WellFormed
  /-- No node is copied. -/
  size : u.nodes.size = g.nodes.size
  label : ∀ n, n < t.nodes.size → u.label n = t.label n
  label_new : ∀ n, t.nodes.size ≤ n → u.label n = g.label n
  /-- If the target was the root, the node in its place is. -/
  root_eq : u.root =
    if t.root = some target then some (mode.inPlace target root foot) else t.root
  place : u.parent (mode.inPlace target root foot) = t.parent target
  /-- Outside the target one slot changes. -/
  outside : ∀ q, t.isAttached q = true → ¬ t.AtOrUnder q target → u.parent q = t.parent q ∧
    u.children q = inPlaceOf target [mode.inPlace target root foot] (t.children q)
  below : ∀ q, t.Under q target → u.children q = t.children q
  former : u.children (mode.holder target root foot) = t.children target
  discarded : u.Loose (mode.discarded target root foot)
  attached : ∀ n, t.isAttached n = true →
    (u.isAttached n = true ↔ n ≠ mode.discarded target root foot)
  /-- The new nodes have the children that they were made with, up to the foot. -/
  root_mode : mode = .root → ∀ n, t.nodes.size ≤ n → n ≠ foot → u.children n = g.children n
  /-- The target takes the place of the new root, unless the foot is to take that of the target. -/
  head_mode : mode = .head → (foot ≠ root → u.children target = g.children root) ∧
    ∀ n, t.nodes.size ≤ n → n ≠ root → n ≠ foot → u.children n = g.children n
  /-- The target takes the place of the foot. -/
  foot_mode : mode = .foot →
    (∀ n, t.nodes.size ≤ n → u.children n = inPlaceOf foot [target] (g.children n)) ∧
    (foot ≠ root → u.parent target = g.parent foot) ∧ (foot = root → SameAttached t u)

/-- What is said of attached nodes does not change if trees are added. -/
theorem Tree.Grown.reads_of_isAttached {t g : Tree} (hgrown : Grown t g) (ht : t.WellFormed)
    {q : NodeId} (hq : t.isAttached q = true) :
    g.isAttached q = true ∧ g.parent q = t.parent q ∧ g.children q = t.children q := by
  obtain ⟨-, hparent, hchildren⟩ := hgrown.reads_eq (ht.lt_size_of_isAttached hq)
  exact ⟨by rw [hgrown.isAttached_eq ht, hq], hparent, hchildren⟩

namespace Tree.Adjunction

variable {t g u : Tree} {target root foot : NodeId}

/-- The node that is given up becomes loose. -/
theorem loose_discarded (h : g.Adjunction target root foot) (mode : AdjunctionMode)
    (hu : Rearranged g u
      (if g.root = some target then some (mode.inPlace target root foot) else g.root)
      (g.adjoinedChildren target root foot mode)) :
    u.Loose (mode.discarded target root foot) := by
  have htarget := h.wellFormed.lt_size_of_isAttached h.target_attached
  have htr := h.ne_root h.target_attached
  refine ⟨?_, hu.parent_eq_none (h.discarded_notMem mode), fun hr => ?_⟩
  · rw [hu.size]
    cases mode with
    | root => exact htarget
    | head => exact h.root_loose.known
    | foot => exact h.foot_known
  · -- the root is attached, and the detached tree stays out of it where it is given up
    rw [hu.root] at hr
    by_cases ht : g.root = some target
    · rw [if_pos ht] at hr
      have heq := Option.some.inj hr
      cases mode with
      | root => exact htr heq.symm
      | head => exact htr heq
      | foot =>
        rw [AdjunctionMode.inPlace, AdjunctionMode.discarded] at heq
        split at heq
        · exact h.ne_foot h.target_attached heq
        · rename_i hfr
          exact hfr heq.symm
    · rw [if_neg ht] at hr
      have hattached := h.wellFormed.isAttached_iff.mpr ⟨_, hr, .refl⟩
      cases mode with
      | root => exact ht hr
      | head => exact h.ne_root hattached rfl
      | foot => exact h.ne_foot hattached rfl

section outcome

variable (h : g.Adjunction target root foot) (ht : t.WellFormed) (hgrown : Grown t g)

include h ht hgrown

/-- The nodes of the detached tree do not have the target below them. -/
theorem target_apart {n : NodeId} (hn : t.nodes.size ≤ n) :
    n ≠ target ∧ target ∉ g.children n := by
  have hdetached : g.isAttached n = false := by
    rw [hgrown.isAttached_eq ht, Bool.eq_false_iff]
    intro hattached
    exact Nat.not_lt.mpr hn (ht.lt_size_of_isAttached hattached)
  refine ⟨?_, h.target_notMem hdetached⟩
  rintro rfl
  rw [h.target_attached] at hdetached
  exact absurd hdetached (by simp)

theorem target_attached_before : t.isAttached target = true := by
  rw [← hgrown.isAttached_eq ht, h.target_attached]

variable {mode : AdjunctionMode}
  (hu : Rearranged g u
    (if g.root = some target then some (mode.inPlace target root foot) else g.root)
    (g.adjoinedChildren target root foot mode))

include hu

theorem children_adjoined {q : NodeId} (hq : t.isAttached q = true) (hne : q ≠ target) :
    u.children q = inPlaceOf target [mode.inPlace target root foot] (t.children q) := by
  obtain ⟨hqg, -, hchildren⟩ := hgrown.reads_of_isAttached ht hq
  rw [hu.children, h.adjoinedChildren_of_isAttached mode hqg hne, hchildren]

theorem children_holder :
    u.children (mode.holder target root foot) = t.children target := by
  obtain ⟨-, -, hchildren⟩ :=
    hgrown.reads_of_isAttached ht (h.target_attached_before ht hgrown)
  rw [hu.children, h.adjoinedChildren_holder, hchildren]

theorem parent_inPlace : u.parent (mode.inPlace target root foot) = t.parent target := by
  obtain ⟨-, hparent, -⟩ := hgrown.reads_of_isAttached ht (h.target_attached_before ht hgrown)
  refine Option.ext fun p => ?_
  rw [← hu.mem_children_iff, h.inPlace_mem_adjoinedChildren_iff, h.wellFormed.mem_children_iff,
    hparent]

theorem parent_outside {q : NodeId} (hq : t.isAttached q = true)
    (hout : ¬ t.AtOrUnder q target) : u.parent q = t.parent q := by
  obtain ⟨hqg, hparent, -⟩ := hgrown.reads_of_isAttached ht hq
  have hne : q ≠ target := fun heq => hout (heq ▸ .refl)
  have hnot : q ∉ g.children target := by
    rw [(hgrown.reads_of_isAttached ht (h.target_attached_before ht hgrown)).2.2,
      ht.mem_children_iff]
    exact fun hl => hout (.single hl)
  refine Option.ext fun p => ?_
  rw [← hu.mem_children_iff, h.mem_adjoinedChildren_iff mode hqg hne hnot,
    h.wellFormed.mem_children_iff, hparent]

theorem children_below {q : NodeId} (hq : t.Under q target) : u.children q = t.children q := by
  have hattached := ht.isAttached_of_atOrUnder (h.target_attached_before ht hgrown)
    hq.to_reflTransGen
  rw [h.children_adjoined ht hgrown hu hattached fun heq => ht.acyclic target (heq ▸ hq),
    inPlaceOf_of_notMem]
  exact fun hmem => ht.acyclic q (hq.tail ((ht.mem_children_iff q target).mp hmem))

theorem isAttached_adjoined_iff {n : NodeId} (hn : t.isAttached n = true) :
    u.isAttached n = true ↔ n ≠ mode.discarded target root foot := by
  constructor
  · rintro hattached rfl
    rw [hu.wellFormed.not_isAttached_of_loose (h.loose_discarded mode hu)] at hattached
    exact absurd hattached (by simp)
  · intro hne
    refine hu.wellFormed.isAttached_of_supported (h.Kept mode) (fun m hm => ?_)
      ⟨.inl (hgrown.reads_of_isAttached ht hn).1, hne⟩
    rw [hu.root]
    simp only [hu.children]
    exact h.supported_of_kept mode hm

end outcome

/-- A template of one node leaves the attached part as it was if the target takes its place. -/
theorem sameAttached_of_foot_eq_root (h : g.Adjunction target root foot) (ht : t.WellFormed)
    (hgrown : Grown t g) (hfr : foot = root)
    (hu : Rearranged g u
      (if g.root = some target then some (AdjunctionMode.inPlace target root foot .foot)
        else g.root)
      (g.adjoinedChildren target root foot .foot)) : SameAttached t u := by
  refine ht.sameAttached hu.wellFormed ?_ fun n hn => ?_
  · rw [hu.root, hgrown.root_eq, AdjunctionMode.inPlace, if_pos hfr]
    split
    · rename_i hr
      exact hr.symm
    · rfl
  · by_cases hne : n = target
    · rw [hne]
      exact h.children_holder ht hgrown hu
    · rw [h.children_adjoined ht hgrown hu hn hne, AdjunctionMode.inPlace, if_pos hfr,
        inPlaceOf_self]

/-- **What an adjunction comes to** for a tree to which the adjoined one has been added. -/
theorem adjoined (h : g.Adjunction target root foot) (ht : t.WellFormed) (hgrown : Grown t g)
    (mode : AdjunctionMode)
    (hu : Rearranged g u
      (if g.root = some target then some (mode.inPlace target root foot) else g.root)
      (g.adjoinedChildren target root foot mode)) : Adjoined mode t g u target root foot := by
  have hnew : ∀ n, t.nodes.size ≤ n → n ≠ target ∧ target ∉ g.children n :=
    fun n hn => h.target_apart ht hgrown hn
  refine ⟨hu.wellFormed, hu.size, fun n hn => ?_, fun n _ => hu.label n, ?_,
    h.parent_inPlace ht hgrown hu,
    fun q hq hout => ⟨h.parent_outside ht hgrown hu hq hout, ?_⟩,
    fun q hq => h.children_below ht hgrown hu hq, h.children_holder ht hgrown hu,
    h.loose_discarded mode hu, fun n hn => h.isAttached_adjoined_iff ht hgrown hu hn, ?_, ?_, ?_⟩
  · rw [hu.label, (hgrown.reads_eq hn).1]
  · rw [hu.root, hgrown.root_eq]
  · exact h.children_adjoined ht hgrown hu hq fun heq => hout (heq ▸ .refl)
  · rintro rfl n hn hnf
    rw [hu.children, adjoinedChildren, if_neg hnf, if_neg (hnew n hn).1,
      inPlaceOf_of_notMem (hnew n hn).2]
  · rintro rfl
    refine ⟨fun hfr => ?_, fun n hn hnr hnf => ?_⟩
    · rw [hu.children, adjoinedChildren, if_pos rfl, if_neg hfr]
    · rw [hu.children, adjoinedChildren, if_neg (hnew n hn).1, if_neg hnr, if_neg hnf]
  · rintro rfl
    refine ⟨fun n hn => ?_, fun hfr => ?_, fun hfr =>
      h.sameAttached_of_foot_eq_root ht hgrown hfr hu⟩
    · have hnone : inPlaceOf target [root] (g.children n) = g.children n :=
        inPlaceOf_of_notMem (hnew n hn).2
      rw [hu.children, adjoinedChildren, hnone]
    · refine Option.ext fun p => ?_
      have hft := (h.ne_foot h.target_attached).symm
      have htr := h.ne_root h.target_attached
      rw [← hu.mem_children_iff, ← h.wellFormed.mem_children_iff, adjoinedChildren]
      simp [mem_inPlaceOf, hft, htr, hfr]

end Tree.Adjunction

/-! ## The operation -/

namespace Surgery

/-- What an adjunction of a filled template comes to. The names of the template's node that is given
up are names of the target, where it is not the target itself that is given up. -/
structure AdjoinedBy (mode : AdjunctionMode) (template : Template) (s : Surgery)
    (filled : Rose (Label × Option Slot)) (target foot : NodeId) (u : Surgery) : Prop where
  tree : Adjoined mode s.tree (s.plant filled).tree u.tree target s.tree.nodes.size foot
  head_name : mode = .head → ∀ r, template.rootName? = some r → u.node? r = some target
  foot_name : mode = .foot → ∀ f, template.footName? = some f → u.node? f = some target

end Surgery

theorem Step.ends_adjoin {s : Surgery} {template : Template} {filled : Rose (Label × Option Slot)}
    {target foot : NodeId} (h : s.tree.WellFormed) (hinst : template.Instance s filled foot)
    (htarget : s.tree.isAttached target = true) (mode : AdjunctionMode) :
    Ends (adjoin mode template target) s
      (fun _ u => Surgery.AdjoinedBy mode template s filled target foot u) fun _ _ => False := by
  obtain ⟨slots, htree, hfill⟩ := hinst.fill
  have hgrown := Grown.single s.tree (filled.map Prod.fst)
  have hadjunction : (s.plant filled).tree.Adjunction target s.tree.nodes.size foot :=
    ⟨h.graft _, by rwa [← hgrown.isAttached_eq h] at htarget, h.loose_graft _,
      h.atOrUnder_graft _ hinst.foot_ge hinst.foot_lt⟩
  refine ends_require htarget (ends_instantiateWithFoot htree hfill hinst.foot_eq (ends_edit ?_))
  refine (Edit.ends_adjoin hadjunction mode).mono (fun _ u hu => ?_) fun _ _ h => h
  have hadjoined := hadjunction.adjoined h hgrown mode hu
  cases mode with
  | root => exact ⟨hadjoined, fun heq => absurd heq (by simp), fun heq => absurd heq (by simp)⟩
  | head =>
    refine ⟨hadjoined, fun _ r hr => ?_, fun heq => absurd heq (by simp)⟩
    exact Surgery.node?_rename (s := { s.plant filled with tree := u })
      (hinst.root_name r hr) target
  | foot =>
    refine ⟨hadjoined, fun heq => absurd heq (by simp), fun _ f hf => ?_⟩
    exact Surgery.node?_rename (s := { s.plant filled with tree := u })
      (hinst.foot_name f hf) target

namespace Operation

variable {s : Surgery}

/-- **Adjoining.** Let a template have a foot, let its holes be such that they can be filled, and
let the target be attached. Then the template is made, nothing is reported, and in each of the modes
the new nodes, the target and its children come to the places that `Adjoined` says, while all that
is outside the target, one slot apart, and all that is below it stays as it was. -/
theorem adjoin_adjoined (h : s.tree.WellFormed) (marks : Marks) (mode : AdjunctionMode)
    {text : List Char} {template : Template} (hparse : Template.parse text = .ok template)
    (hfoot : template.foot?.isSome = true) (hasked : s.Resolves template.askedNames)
    {name : String} {target : NodeId} (hname : s.fetch name = .ok target)
    (htarget : s.tree.isAttached target = true) :
    ∃ filled foot u, template.Instance s filled foot ∧
      (adjoin mode template name).run marks s = (u, []) ∧
      s.AdjoinedBy mode template filled target foot u := by
  obtain ⟨filled, foot, hinst⟩ := Template.exists_instance hparse hfoot hasked
  have hstep : Ends (do
      let target ← Step.fetch name
      Step.adjoin mode template target) s
      (fun _ u => s.AdjoinedBy mode template filled target foot u) fun _ _ => False :=
    Step.ends_fetch hname (Step.ends_adjoin h hinst htarget mode)
  obtain ⟨u, hrun, hu⟩ := Surgery.attempt_of_ends (adjoin mode template name).keyword hstep
  exact ⟨filled, foot, u, hinst, hrun, hu⟩

/-- In `(S (A b) c)` the template `(X=r Y F@)` is adjoined to `A`, which keeps its place, gets `Y`
and the foot, and has its child below the foot. -/
theorem adjoin_adjoined_head :
    let t := Tree.ofConstituent (some (.node "S" [.node "A" [.node "b" []], .node "c" []]))
    let s : Surgery := ⟨t, ⟨0, [some 1], ["a"]⟩, []⟩
    let read := Template.parse "(X=r Y F@)".toList
    s.fetch "a" = .ok 1 ∧ ∃ template, read = .ok template ∧
      (read.toOption.map fun template =>
        ((adjoin .head template "a").run [] s).1.tree.attached) = some [0, 1, 5, 6, 2, 3] ∧
      ∃ filled foot u, template.Instance s filled foot ∧
        (adjoin .head template "a").run [] s = (u, []) ∧
        s.AdjoinedBy .head template filled 1 foot u := by
  intro t s read
  have h : t.WellFormed := wellFormed_ofConstituent _
  have hreads : (read.toOption.map fun template =>
      (template.foot?.isSome, template.askedNames)) = some (true, []) := by decide +kernel
  have hplaced : (read.toOption.map fun template =>
      ((adjoin .head template "a").run [] s).1.tree.attached) = some [0, 1, 5, 6, 2, 3] := by
    decide +kernel
  cases hparse : read with
  | error e =>
    rw [hparse] at hreads
    exact absurd hreads (by simp [Except.toOption])
  | ok template =>
    rw [hparse] at hreads
    obtain ⟨hfoot, hnone⟩ : template.foot?.isSome = true ∧ template.askedNames = [] := by
      simpa [Except.toOption] using hreads
    have hname : s.fetch "a" = .ok 1 := rfl
    have htarget : t.isAttached 1 = true := by decide +kernel
    have hasked : s.Resolves template.askedNames := fun name hname =>
      absurd hname (by rw [hnone]; exact List.not_mem_nil)
    exact ⟨hname, template, rfl, hparse ▸ hplaced,
      adjoin_adjoined h [] .head hparse hfoot hasked hname htarget⟩

end Operation

end Constituency
