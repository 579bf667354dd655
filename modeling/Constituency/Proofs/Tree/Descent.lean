import Constituency.Proofs.Renumbering.Candidates

/-!
# The part of a traversal below a node

What is below an attached node stands in one piece in the pre-order of the tree (`attached_split`).
So whatever is listed on the way down from a node, in pre-order, is in pre-order among all attached
nodes too.

Walks are described in the same way: one that goes from a node to one of its children lists nodes of
the traversal in order, and one that goes from a node to its parent lists ancestors, the nearest
first. What a walk lists is what can be reached by its steps (`mem_walk_iff`).
-/

namespace Constituency

open Constituency.Tree

namespace Rose

variable {α : Type}

mutual

theorem through_sublist (p : α → Bool) : ∀ r : Rose α, (r.through p).Sublist r.preorder
  | .node a rs => by
    rw [through, preorder]
    refine .cons_cons a ?_
    split
    · exact throughAll_sublist p rs
    · exact List.nil_sublist _

theorem throughAll_sublist (p : α → Bool) : ∀ rs : List (Rose α),
    (throughAll p rs).Sublist (preorderAll rs)
  | [] => .slnil
  | r :: rs => by
    rw [throughAll, preorderAll]
    exact (through_sublist p r).append (throughAll_sublist p rs)

end

end Rose

theorem takeThrough_sublist {α : Type} (p : α → Bool) (as : List α) :
    (takeThrough p as).Sublist as := by
  induction as with
  | nil => exact .slnil
  | cons a as ih =>
    rw [takeThrough]
    split
    · exact ih.cons_cons a
    · exact (List.nil_sublist as).cons_cons a

namespace Tree.WellFormed

variable {t : Tree} {n p x : NodeId}

/-! ## Where a node stands -/

/-- What is below a child stands in one piece in the traversal from its parent. -/
theorem preorder_split_child (h : t.WellFormed) (hp : t.parent n = some p) :
    ∃ front back, t.preorder p = front ++ t.preorder n ++ back := by
  obtain ⟨before, after, hchildren⟩ := List.append_of_mem ((h.mem_children_iff p n).mpr hp)
  refine ⟨p :: before.flatMap t.preorder, after.flatMap t.preorder, ?_⟩
  rw [h.preorder_eq p, hchildren, List.flatMap_append, List.flatMap_cons]
  simp only [List.cons_append, List.append_assoc]

/-- What is below an attached node stands in one piece among the attached nodes. -/
theorem attached_split (h : t.WellFormed) (hn : n ∈ t.attached) :
    ∃ front back, t.attached = front ++ t.preorder n ++ back := by
  induction n using h.up_induction with
  | step n ih =>
    cases hp : t.parent n with
    | none =>
      obtain ⟨r, hr, hup⟩ := h.isAttached_iff.mp (h.mem_attached_iff.mp hn)
      have hroot : n = r := by
        rcases Relation.ReflTransGen.cases_head hup with hnr | ⟨q, hq, _⟩
        · exact hnr
        · rw [Link, hp] at hq
          exact absurd hq (by simp)
      refine ⟨[], [], ?_⟩
      rw [attached, hr, hroot, List.nil_append, List.append_nil]
    | some p =>
      obtain ⟨front, back, hattached⟩ := ih p hp (h.parent_mem_attached hn hp)
      obtain ⟨before, after, hsplit⟩ := h.preorder_split_child hp
      refine ⟨front ++ before, after ++ back, ?_⟩
      rw [hattached, hsplit]
      simp only [List.append_assoc]

theorem preorder_sublist_attached (h : t.WellFormed) (hn : n ∈ t.attached) :
    (t.preorder n).Sublist t.attached := by
  obtain ⟨front, back, hsplit⟩ := h.attached_split hn
  rw [hsplit, List.append_assoc]
  exact (List.sublist_append_left _ back).trans (List.sublist_append_right front _)

/-- What stands behind an attached node begins with what is below it. -/
theorem attached_after (h : t.WellFormed) {front rest : List NodeId}
    (hsplit : t.attached = front ++ n :: rest) :
    ∃ back, rest = (t.children n).flatMap t.preorder ++ back := by
  have hn : n ∈ t.attached := hsplit ▸ List.mem_append_right _ (List.mem_cons_self ..)
  obtain ⟨front', back, hpiece⟩ := h.attached_split hn
  refine ⟨back, ?_⟩
  -- a node occurs once, so that the two ways to split the list at `n` are one
  have hnodup := h.attached_nodup
  rw [h.preorder_eq, List.append_assoc, List.cons_append] at hpiece
  have hsame : front ++ n :: rest = front' ++ n :: ((t.children n).flatMap t.preorder ++ back) :=
    hsplit.symm.trans hpiece
  rw [hsplit] at hnodup
  have hothers := (List.nodup_cons.mp (List.nodup_middle.mp hnodup)).1
  rw [List.mem_append, not_or] at hothers
  exact ((List.append_cons_inj_of_notMem hothers.1 hothers.2).mp hsame).2.2

theorem children_sublist_preorder (h : t.WellFormed) (n : NodeId) :
    (t.children n).Sublist (t.preorder n).tail := by
  rw [h.preorder_eq, List.tail_cons]
  generalize t.children n = cs
  induction cs with
  | nil => exact .slnil
  | cons c cs ih =>
    rw [List.flatMap_cons, h.preorder_eq c, List.cons_append]
    exact .cons_cons c (ih.trans (List.sublist_append_right ..))

/-! ## Walks -/

section walk

variable {next : NodeId → Option NodeId}

theorem walk_eq (h : t.WellFormed) (hnext : t.Follows next) (n : NodeId) :
    t.walk next n = match next n with
      | none => []
      | some x => x :: t.walk next x := by
  rw [← h.walkUpTo_eq hnext (Nat.le_succ _) n, walkUpTo]
  rfl

/-- The steps of a walk lead nowhere twice. -/
theorem walk_induction (h : t.WellFormed) (hnext : t.Follows next) {motive : NodeId → Prop}
    (step : ∀ n, (∀ x, next n = some x → motive x) → motive n) (n : NodeId) : motive n := by
  rcases hnext with hup | hdown
  · exact h.up_induction (fun n ih => step n fun x hx => ih x (hup n x hx)) n
  · refine h.down_induction (fun n ih => step n fun x hx => ih x ?_) n
    exact (h.mem_children_iff n x).mpr (hdown n x hx)

/-- **A walk lists what can be reached by its steps.** -/
theorem mem_walk_iff (h : t.WellFormed) (hnext : t.Follows next) :
    x ∈ t.walk next n ↔ Relation.TransGen (fun a b => next a = some b) n x := by
  induction n using h.walk_induction hnext with
  | step n ih =>
    rw [h.walk_eq hnext, Relation.TransGen.head'_iff]
    cases hn : next n with
    | none => simp
    | some y =>
      rw [List.mem_cons, ih y hn]
      constructor
      · rintro (rfl | hx)
        · exact ⟨x, rfl, .refl⟩
        · exact ⟨y, rfl, hx.to_reflTransGen⟩
      · rintro ⟨z, hz, hx⟩
        obtain rfl := Option.some.inj hz
        rcases Relation.reflTransGen_iff_eq_or_transGen.mp hx with hxy | hx
        · exact .inl hxy
        · exact .inr hx

/-- A walk down is in pre-order. -/
theorem walk_sublist_preorder (h : t.WellFormed)
    (hnext : ∀ x y, next x = some y → y ∈ t.children x) (n : NodeId) :
    (t.walk next n).Sublist (t.preorder n).tail := by
  induction n using h.down_induction with
  | step n ih =>
    rw [h.walk_eq (h.follows_child hnext)]
    cases hn : next n with
    | none => exact List.nil_sublist _
    | some c =>
      have hc := hnext n c hn
      obtain ⟨before, after, hchildren⟩ := List.append_of_mem hc
      have hrest := (ih c hc).cons_cons c
      rw [h.preorder_eq c, List.tail_cons, ← h.preorder_eq c] at hrest
      rw [h.preorder_eq n, List.tail_cons, hchildren, List.flatMap_append, List.flatMap_cons]
      exact (hrest.trans (List.sublist_append_left ..)).trans (List.sublist_append_right ..)

/-- A walk up lists ancestors, the nearest first. -/
theorem walk_sublist_ancestors (h : t.WellFormed) (keep : NodeId → NodeId → Bool) (n : NodeId) :
    (t.walk (t.parentIf keep) n).Sublist (t.ancestors n) := by
  induction n using h.up_induction with
  | step n ih =>
    rw [h.walk_eq (t.follows_parentIf keep)]
    cases hn : t.parentIf keep n with
    | none => exact List.nil_sublist _
    | some p =>
      have hp : t.parent n = some p := (Option.filter_eq_some_iff.mp hn).1
      rw [h.ancestors_of_parent hp]
      exact (ih p hp).cons_cons p

/-- The ancestors are in the order of the way up. -/
theorem ancestors_pairwise (h : t.WellFormed) (n : NodeId) : (t.ancestors n).Pairwise t.Under := by
  induction n using h.up_induction with
  | step n ih =>
    cases hp : t.parent n with
    | none =>
      rw [h.ancestors_of_parent_none hp]
      exact .nil
    | some p =>
      rw [h.ancestors_of_parent hp]
      exact List.pairwise_cons.mpr ⟨fun a ha => h.mem_ancestors_iff.mp ha, ih p hp⟩

theorem ancestors_nodup (h : t.WellFormed) (n : NodeId) : (t.ancestors n).Nodup :=
  (h.ancestors_pairwise n).imp fun {a b} (hab : t.Under a b) (heq : a = b) =>
    h.acyclic b (heq ▸ hab)

end walk

/-! ## Through chains of nodes -/

section chain

variable (d : NodeId → Bool)

/-- Downwards, as far as the nodes satisfy `d`: every node between has to. -/
theorem mem_belowThrough_iff (h : t.WellFormed) :
    x ∈ t.belowThrough d t.nodes.size n ↔
      t.AtOrUnder x n ∧ ∀ y, t.Under x y → t.AtOrUnder y n → d y = true := by
  rw [Twins.belowThrough_eq]
  show x ∈ (t.below n).through d ↔ _
  induction n using h.down_induction with
  | step n ih =>
    rw [h.below_eq, Rose.through, Rose.throughAll_eq_flatMap, List.flatMap_map, List.mem_cons]
    constructor
    · rintro (rfl | hx)
      · exact ⟨.refl, fun y hxy hyx => absurd (hxy.trans_left hyx) (h.acyclic x)⟩
      · split at hx
        · rename_i hd
          obtain ⟨c, hc, hx⟩ := List.mem_flatMap.mp hx
          have hlink : t.parent c = some n := (h.mem_children_iff n c).mp hc
          obtain ⟨hxc, hbetween⟩ := (ih c hc).mp hx
          refine ⟨.tail hxc hlink, fun y hxy hyn => ?_⟩
          rcases Relation.ReflTransGen.cases_tail hyn with rfl | ⟨c', hyc', hc'⟩
          · exact hd
          · -- the way from `x` to `y` and on to `n` goes through `c`
            have hcc' := h.eq_of_atOrUnder_children hlink hc' hxc
              (hxy.to_reflTransGen.trans hyc')
            exact hbetween y hxy (hcc' ▸ hyc')
        · exact absurd hx (by simp)
    · rintro ⟨hxn, hbetween⟩
      rcases Relation.ReflTransGen.cases_tail hxn with rfl | ⟨c, hxc, hc⟩
      · exact .inl rfl
      · have hd : d n = true := hbetween n (.tail' hxc hc) .refl
        rw [if_pos hd]
        have hmem := (h.mem_children_iff n c).mpr hc
        exact .inr (List.mem_flatMap.mpr ⟨c, hmem, (ih c hmem).mpr
          ⟨hxc, fun y hxy hyc => hbetween y hxy (.tail hyc hc)⟩⟩)

theorem belowThrough_sublist_preorder (t : Tree) (n : NodeId) :
    (t.belowThrough d t.nodes.size n).Sublist (t.preorder n) := by
  rw [Twins.belowThrough_eq]
  exact Rose.through_sublist d (t.below n)

/-- Upwards, as far as the nodes satisfy `d`. -/
theorem mem_takeThrough_ancestors_iff (h : t.WellFormed) :
    x ∈ takeThrough d (t.ancestors n) ↔
      t.Under n x ∧ ∀ y, t.Under n y → t.Under y x → d y = true := by
  induction n using h.up_induction with
  | step n ih =>
    cases hp : t.parent n with
    | none =>
      rw [h.ancestors_of_parent_none hp]
      refine ⟨fun hx => absurd hx (by simp [takeThrough]), fun ⟨hx, _⟩ => ?_⟩
      obtain ⟨q, hq, _⟩ := Relation.TransGen.head'_iff.mp hx
      rw [Link, hp] at hq
      exact absurd hq (by simp)
    | some p =>
      have hfrom : ∀ y, t.Under n y ↔ y = p ∨ t.Under p y := by
        intro y
        rw [Under, Relation.TransGen.head'_iff]
        constructor
        · rintro ⟨q, hq, hy⟩
          obtain rfl := Option.some.inj (hp.symm.trans hq)
          exact Relation.reflTransGen_iff_eq_or_transGen.mp hy
        · intro hy
          exact ⟨p, hp, Relation.reflTransGen_iff_eq_or_transGen.mpr hy⟩
      rw [h.ancestors_of_parent hp, takeThrough]
      cases hd : d p with
      | true =>
        rw [if_pos rfl, List.mem_cons, ih p hp, hfrom]
        constructor
        · rintro (rfl | ⟨hx, hbetween⟩)
          · refine ⟨.inl rfl, fun y hy hyx => ?_⟩
            rcases (hfrom y).mp hy with rfl | hy
            · exact hd
            · exact absurd (hy.trans hyx) (h.acyclic x)
          · refine ⟨.inr hx, fun y hy hyx => ?_⟩
            rcases (hfrom y).mp hy with rfl | hy
            · exact hd
            · exact hbetween y hy hyx
        · rintro ⟨hx, hbetween⟩
          exact hx.imp_right fun hx => ⟨hx, fun y hy => hbetween y ((hfrom y).mpr (.inr hy))⟩
      | false =>
        rw [if_neg Bool.false_ne_true, List.mem_singleton, hfrom]
        constructor
        · rintro rfl
          refine ⟨.inl rfl, fun y hy hyx => ?_⟩
          rcases (hfrom y).mp hy with rfl | hy
          · exact absurd hyx (h.acyclic y)
          · exact absurd (hy.trans hyx) (h.acyclic x)
        · rintro ⟨rfl | hx, hbetween⟩
          · rfl
          · have hdp := hbetween p ((hfrom p).mpr (.inl rfl)) hx
            rw [hd] at hdp
            exact absurd hdp Bool.false_ne_true

end chain

end Tree.WellFormed

end Constituency
