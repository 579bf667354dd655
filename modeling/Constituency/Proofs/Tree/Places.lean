import Constituency.Proofs.Tree.Requests

/-!
# Who has a place after an edit

A node has a place in an arena if it has a parent or is the root. Putting other
nodes in the place of one is refused to a node without a place, so an edit of
several steps has to know that the steps before have not taken the place away.

Replacing the children of a node changes the parent links of the children it
had and of those it gets, and no others. Of those it gets each has a parent
afterwards, unless it could only come as a copy of itself because it is the root,
the new parent, or above it.
-/

namespace Constituency.Tree

/-- A node that is the child of another, or the root. -/
def HasPlace (t : Tree) (n : NodeId) : Prop := (t.parent n).isSome = true ∨ t.root = some n

variable {t : Tree} {p n : NodeId}

theorem WellFormed.hasPlace_of_isAttached (h : t.WellFormed) (hn : t.isAttached n = true) :
    t.HasPlace n := by
  obtain ⟨r, hr, hup⟩ := h.isAttached_iff.mp hn
  rcases Relation.ReflTransGen.cases_head hup with rfl | ⟨q, hq, _⟩
  · exact .inr hr
  · exact .inl (by rw [hq]; rfl)

/-- A child can be found among the children of its parent. -/
theorem WellFormed.childIndex_isSome (h : t.WellFormed) (hp : t.parent n = some p) :
    (t.childIndex n).isSome = true := by
  rw [childIndex, hp, Option.bind_some, List.isSome_idxOf?]
  exact (h.mem_children_iff p n).mpr hp

theorem link_setChildren (t : Tree) (q : NodeId) (cs : List NodeId) :
    (t.setChildren q cs).Link = t.Link := by
  funext a b
  rw [Link, Link, parent_setChildren]

theorem under_setChildren (t : Tree) (q : NodeId) (cs : List NodeId) :
    (t.setChildren q cs).Under = t.Under := by
  rw [Under, Under, link_setChildren]

/-! ## Placing nodes -/

section place

variable (t p n) (placed : List NodeId) (c : NodeId)

theorem root_place : (t.place p placed c).1.root = t.root := by
  rcases place_cases t p placed c with h | ⟨h, _⟩
  · rw [h, root_graft]
  · rw [h]

variable {n}

theorem size_place : t.nodes.size ≤ (t.place p placed c).1.nodes.size := by
  rcases place_cases t p placed c with h | ⟨h, _⟩
  · rw [h, size_graft]
    exact Nat.le_add_right ..
  · exact Nat.le_of_eq (by rw [h])

theorem parent_place (hn : n < t.nodes.size) :
    (t.place p placed c).1.parent n = t.parent n := by
  rcases place_cases t p placed c with h | ⟨h, _⟩
  · rw [h, parent_graft t _ hn]
  · rw [h]

/-- What is placed for a node is that node or a new one. -/
theorem snd_place (hn : n < t.nodes.size) (hc : (t.place p placed c).2 = n) : c = n := by
  rcases place_cases t p placed c with h | ⟨h, _⟩
  · rw [h, snd_graft] at hc
    exact absurd hn (Nat.not_lt.mpr (Nat.le_of_eq hc))
  · rwa [h] at hc

end place

theorem root_placeAll (p : NodeId) : ∀ (cs placed : List NodeId) (t : Tree),
    (t.placeAll p placed cs).1.root = t.root
  | [], _, _ => rfl
  | c :: cs, placed, t => by
    rw [placeAll_cons, root_placeAll p cs, root_setParent, root_place]

/-- Only the nodes that are placed get another parent. -/
theorem parent_placeAll (p : NodeId) : ∀ (cs placed : List NodeId) (t : Tree),
    n < t.nodes.size → n ∉ cs → (t.placeAll p placed cs).1.parent n = t.parent n
  | [], _, _, _, _ => rfl
  | c :: cs, placed, t, hn, hcs => by
    have hsize := t.size_place p placed c
    have hne : (t.place p placed c).2 ≠ n := fun heq =>
      hcs (t.snd_place p placed c hn heq ▸ List.mem_cons_self ..)
    rw [placeAll_cons, parent_placeAll p cs, parent_setParent, if_neg fun h => hne h.1,
      parent_place t p placed c hn]
    · rw [size_setParent]
      exact Nat.lt_of_lt_of_le hn hsize
    · exact fun h => hcs (List.mem_cons_of_mem c h)

/-- A node that has a parent keeps one. -/
theorem parent_placeAll_isSome (p : NodeId) : ∀ (cs placed : List NodeId) (t : Tree),
    n < t.nodes.size → (t.parent n).isSome = true →
      ((t.placeAll p placed cs).1.parent n).isSome = true
  | [], _, _, _, h => h
  | c :: cs, placed, t, hn, h => by
    have hsize := t.size_place p placed c
    rw [placeAll_cons]
    refine parent_placeAll_isSome p cs _ _ ?_ ?_
    · rw [size_setParent]
      exact Nat.lt_of_lt_of_le hn hsize
    · rw [parent_setParent]
      split
      · rfl
      · rwa [parent_place t p placed c hn]

/-- Placing a ready node below `p` adds nothing above `p`. -/
theorem under_of_setParent {u : Tree} {x b : NodeId} (hne : x ≠ p) (hx : ¬ u.Under p x)
    (h : (u.setParent x (some p)).Under p b) : u.Under p b := by
  induction h with
  | single hl =>
    rw [Link, parent_setParent, if_neg fun heq : x = p ∧ _ => hne heq.1] at hl
    exact .single hl
  | @tail a b _ hl ih =>
    rw [Link, parent_setParent, if_neg fun heq : x = a ∧ _ => hx (heq.1 ▸ ih)] at hl
    exact .tail ih hl

/-- **Every node that can be placed has a parent in the end.** -/
theorem parent_placeAll_of_mem {x : NodeId} : ∀ (cs placed : List NodeId) (t : Tree),
    (t.setChildren p placed).WellFormed → p < t.nodes.size → (∀ c ∈ cs, c < t.nodes.size) →
    x ∈ cs → t.root ≠ some x → x ≠ p → ¬ t.Under p x →
      ((t.placeAll p placed cs).1.parent x).isSome = true
  | [], _, _, _, _, _, hx, _, _, _ => absurd hx (by simp)
  | c :: cs, placed, t, h, hp, hcs, hx, hroot, hne, hup => by
    obtain ⟨hwf, hready, hsize⟩ := place_ready h hp (hcs c (List.mem_cons_self ..))
    have hpu := Nat.lt_of_lt_of_le hp hsize
    have hxt := hcs x hx
    -- no round takes a parent away, so it is enough that `x` has one at some time
    by_cases hparent : (t.parent x).isSome = true
    · exact parent_placeAll_isSome p (c :: cs) placed t hxt hparent
    · rw [placeAll_cons]
      rcases List.mem_cons.mp hx with rfl | hx
      · -- the node moves to its place as it is
        have hplaced : placed.contains x = false := by
          refine Bool.eq_false_iff.mpr fun hmem => hparent ?_
          have hchild : x ∈ (t.setChildren p placed).children p := by
            rw [children_setChildren, if_pos ⟨rfl, hp⟩]
            exact List.contains_iff_mem.mp hmem
          have hl := (h.mem_children_iff p x).mp hchild
          rw [parent_setChildren] at hl
          rw [hl]
          rfl
        have hdom : t.mustCopy p x = false := by
          rw [← mustCopy_setChildren t p x p placed, mustCopy, parent_setChildren]
          have habove : (t.setChildren p placed).dominates x p = false := by
            refine Bool.eq_false_iff.mpr fun hd => hup ?_
            have hu := h.dominates_iff.mp hd
            rwa [under_setChildren] at hu
          rw [habove, isRoot, root_setChildren]
          simpa [hne, hroot] using hparent
        have hplace : t.place p placed x = (t, x) := by
          rw [place, if_neg (by rw [hplaced]; exact Bool.false_ne_true), available,
            if_neg (by rw [hdom]; exact Bool.false_ne_true)]
        rw [hplace]
        refine parent_placeAll_isSome p cs _ _ (by rwa [size_setParent]) ?_
        rw [parent_setParent, if_pos ⟨rfl, hxt⟩]
        rfl
      · -- `x` comes in a later round, before which nothing is put above `p`
        refine parent_placeAll_of_mem cs _ _ (place_wellFormed hwf hpu hready)
          (by rwa [size_setParent]) ?_ hx ?_ hne fun hu => hup ?_
        · intro y hy
          rw [size_setParent]
          exact Nat.lt_of_lt_of_le (hcs y (List.mem_cons_of_mem _ hy)) hsize
        · rwa [root_setParent, root_place]
        · have hnot := hready.not_above
          rw [under_setChildren] at hnot
          have hu := under_of_setParent hready.ne hnot hu
          rcases place_cases t p placed c with hcopy | ⟨hmove, _⟩
          · have hp' : p < (t.setChildren p placed).nodes.size := by rwa [size_setChildren]
            rw [hcopy, ← under_setChildren _ p placed, ← graft_setChildren t placed _ hp] at hu
            have hu := h.under_graft _ hp' hu
            rwa [under_setChildren] at hu
          · rwa [hmove] at hu

/-! ## Replacing children -/

section replaceChildren

variable {cs : List NodeId}

theorem root_replaceChildren (t : Tree) (p : NodeId) (cs : List NodeId) :
    (t.replaceChildren p cs).1.root = t.root := by
  rw [replaceChildren_fst, root_touch, root_setChildren, root_placeAll, root_releaseChildren]

/-- Only former and new children get another parent. -/
theorem parent_replaceChildren (hn : n < t.nodes.size) (hold : n ∉ t.children p) (hnew : n ∉ cs) :
    (t.replaceChildren p cs).1.parent n = t.parent n := by
  rw [replaceChildren_fst, parent_touch, parent_setChildren,
    parent_placeAll p cs [] _ (by rwa [size_releaseChildren]) hnew, parent_releaseChildren,
    if_neg hold]

/-- A new child that need not be copied has a parent then. -/
theorem WellFormed.parent_replaceChildren_of_mem (h : t.WellFormed) (hp : p < t.nodes.size)
    (hcs : ∀ c ∈ cs, c < t.nodes.size) (hn : n ∈ cs) (hroot : t.root ≠ some n) (hne : n ≠ p)
    (hup : ¬ t.Under p n) : ((t.replaceChildren p cs).1.parent n).isSome = true := by
  rw [replaceChildren_fst, parent_touch, parent_setChildren]
  refine parent_placeAll_of_mem cs [] _ (h.setChildren_releaseChildren p)
    (by rwa [size_releaseChildren]) (by rwa [size_releaseChildren]) hn
    (by rwa [root_releaseChildren]) hne fun hu => hup ?_
  refine Relation.TransGen.mono ?_ _ _ hu
  intro a b hl
  rw [Link, parent_releaseChildren] at hl
  split at hl
  · exact absurd hl (by simp)
  · exact hl

end replaceChildren

end Constituency.Tree
