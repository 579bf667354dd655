import Constituency.Tree.Request
import Constituency.Proofs.Tree.Graft

/-!
# Every edit keeps an arena well-formed

Edits are made of three things that are done to links: a node without a place is
linked to a parent, all children of a node are released, and a node is unlinked
from its parent. Releasing and unlinking only take links away. Linking adds one,
and the new link closes a cycle exactly if the child is the parent or above it;
this, and a second place for one node, is what the copying rule of `mustCopy`
keeps out (`Ready`).

While the children of a node are being replaced, the new ones name it as their
parent before it lists them. The invariant of that loop is that the arena would
be well-formed if the list placed so far were the list of children.
-/

namespace Constituency.Tree

/-! ## Taking links away -/

/-- A tree whose links are some of those of another. -/
theorem WellFormed.of_fewer_links {t u : Tree} (h : t.WellFormed)
    (size : u.nodes.size = t.nodes.size) (root : u.root = t.root)
    (parent : ∀ c p, u.parent c = some p → t.parent c = some p)
    (children_nodup : ∀ p, (u.children p).Nodup)
    (mem_children_iff : ∀ p c, c ∈ u.children p ↔ u.parent c = some p) : u.WellFormed := by
  refine ⟨?_, ?_, children_nodup, mem_children_iff, ?_⟩
  · intro r hr
    rw [size]
    exact h.root_known r (root ▸ hr)
  · intro r hr
    have htop := h.root_top r (root ▸ hr)
    cases hp : u.parent r with
    | none => rfl
    | some p =>
      rw [parent r p hp] at htop
      exact absurd htop (by simp)
  · intro n hn
    exact h.acyclic n (Relation.TransGen.mono (fun a b hab => parent a b hab) n n hn)

theorem parent_foldl_setParent (t : Tree) (n : NodeId) : ∀ cs : List NodeId,
    (cs.foldl (fun t c => t.setParent c none) t).parent n =
      if n ∈ cs then none else t.parent n := by
  intro cs
  induction cs generalizing t with
  | nil => rfl
  | cons c cs ih =>
    rw [List.foldl_cons, ih, parent_setParent]
    by_cases hn : n ∈ cs
    · simp [hn]
    · by_cases hc : c = n
      · subst hc
        by_cases hs : c < t.nodes.size
        · simp [hs]
        · simp [hn, hs, parent_of_not_contains hs]
      · simp [hn, hc, Ne.symm hc]

theorem foldl_setParent (t : Tree) : ∀ cs : List NodeId,
    (cs.foldl (fun t c => t.setParent c none) t).nodes.size = t.nodes.size ∧
      (cs.foldl (fun t c => t.setParent c none) t).root = t.root ∧
      (cs.foldl (fun t c => t.setParent c none) t).revision = t.revision ∧
      ∀ n, (cs.foldl (fun t c => t.setParent c none) t).children n = t.children n ∧
        (cs.foldl (fun t c => t.setParent c none) t).label n = t.label n := by
  intro cs
  induction cs generalizing t with
  | nil => exact ⟨rfl, rfl, rfl, fun _ => ⟨rfl, rfl⟩⟩
  | cons c cs ih =>
    obtain ⟨h1, h2, h3, h4⟩ := ih (t.setParent c none)
    rw [List.foldl_cons]
    refine ⟨by rw [h1, size_setParent], h2, h3, ?_⟩
    intro n
    rw [(h4 n).1, (h4 n).2, children_setParent, label_setParent]
    exact ⟨rfl, rfl⟩

section release

variable (t : Tree) (p n : NodeId)

@[simp] theorem size_releaseChildren : (t.releaseChildren p).nodes.size = t.nodes.size := by
  rw [releaseChildren, size_setChildren, (foldl_setParent t _).1]

@[simp] theorem root_releaseChildren : (t.releaseChildren p).root = t.root := by
  rw [releaseChildren, root_setChildren, (foldl_setParent t _).2.1]

@[simp] theorem revision_releaseChildren : (t.releaseChildren p).revision = t.revision := by
  rw [releaseChildren, revision_setChildren, (foldl_setParent t _).2.2.1]

@[simp] theorem label_releaseChildren : (t.releaseChildren p).label n = t.label n := by
  rw [releaseChildren, label_setChildren, ((foldl_setParent t _).2.2.2 n).2]

theorem parent_releaseChildren :
    (t.releaseChildren p).parent n = if n ∈ t.children p then none else t.parent n := by
  rw [releaseChildren, parent_setChildren, parent_foldl_setParent]

theorem children_releaseChildren :
    (t.releaseChildren p).children n = if p = n then [] else t.children n := by
  rw [releaseChildren, children_setChildren, (foldl_setParent t _).1,
    ((foldl_setParent t _).2.2.2 n).1]
  by_cases hp : p = n
  · subst hp
    by_cases hs : p < t.nodes.size
    · simp [hs]
    · simp [children_of_not_contains hs]
  · simp [hp]

end release

namespace WellFormed

variable {t : Tree}

theorem releaseChildren (h : t.WellFormed) (p : NodeId) : (t.releaseChildren p).WellFormed := by
  refine h.of_fewer_links (size_releaseChildren t p) (root_releaseChildren t p) ?_ ?_ ?_
  · intro c q hq
    rw [parent_releaseChildren] at hq
    split at hq
    · exact absurd hq (by simp)
    · exact hq
  · intro q
    rw [children_releaseChildren]
    split
    · exact List.nodup_nil
    · exact h.children_nodup q
  · intro q c
    rw [children_releaseChildren, parent_releaseChildren]
    by_cases hc : c ∈ t.children p
    · have hcp := (h.mem_children_iff p c).mp hc
      by_cases hpq : p = q
      · subst hpq
        simp [hc]
      · simp [hc, hpq, h.mem_children_iff, hcp]
    · have hcp : ¬ t.parent c = some p := fun hcp => hc ((h.mem_children_iff p c).mpr hcp)
      by_cases hpq : p = q
      · subst hpq
        simp [hc, hcp]
      · simp [hc, hpq, h.mem_children_iff]

end WellFormed

/-- Takes a node out of the children of its parent. -/
def unlink (t : Tree) (p id : NodeId) : Tree :=
  (t.setChildren p ((t.children p).filter (· != id))).setParent id none

section unlink

variable {t : Tree} {p id : NodeId} (n : NodeId)

@[simp] theorem size_unlink : (t.unlink p id).nodes.size = t.nodes.size := by
  rw [unlink, size_setParent, size_setChildren]

theorem parent_unlink :
    (t.unlink p id).parent n = if id = n then none else t.parent n := by
  rw [unlink, parent_setParent, size_setChildren, parent_setChildren]
  by_cases hid : id = n
  · subst hid
    by_cases hs : id < t.nodes.size
    · simp [hs]
    · simp [parent_of_not_contains hs]
  · simp [hid]

theorem children_unlink :
    (t.unlink p id).children n =
      if p = n then (t.children p).filter (· != id) else t.children n := by
  rw [unlink, children_setParent, children_setChildren]
  by_cases hp : p = n
  · subst hp
    by_cases hs : p < t.nodes.size
    · simp [hs]
    · simp [children_of_not_contains hs]
  · simp [hp]

end unlink

theorem WellFormed.unlink {t : Tree} (h : t.WellFormed) {p id : NodeId}
    (hp : t.parent id = some p) : (t.unlink p id).WellFormed := by
  refine h.of_fewer_links size_unlink rfl ?_ ?_ ?_
  · intro c q hq
    rw [parent_unlink] at hq
    split at hq
    · exact absurd hq (by simp)
    · exact hq
  · intro q
    rw [children_unlink]
    split
    · exact (h.children_nodup p).filter _
    · exact h.children_nodup q
  · intro q c
    rw [children_unlink, parent_unlink]
    by_cases hc : id = c
    · subst hc
      by_cases hpq : p = q
      · simp [hpq]
      · simp [hpq, h.mem_children_iff, hp]
    · by_cases hpq : p = q
      · subst hpq
        simp [hc, Ne.symm hc, h.mem_children_iff]
      · simp [hc, hpq, h.mem_children_iff]

/-! ## Adding a link -/

/-- Puts a node among the children of another at a position. -/
def link (t : Tree) (p : NodeId) (i : Nat) (c : NodeId) : Tree :=
  (t.setChildren p ((t.children p).insertIdx i c)).setParent c (some p)

section link

variable {t : Tree} {p : NodeId} {i : Nat} {c : NodeId} (n : NodeId)

@[simp] theorem size_link : (t.link p i c).nodes.size = t.nodes.size := by
  rw [link, size_setParent, size_setChildren]

theorem parent_link (hc : c < t.nodes.size) :
    (t.link p i c).parent n = if c = n then some p else t.parent n := by
  rw [link, parent_setParent, size_setChildren, parent_setChildren]
  by_cases hn : c = n
  · subst hn
    simp [hc]
  · simp [hn]

theorem children_link (hp : p < t.nodes.size) :
    (t.link p i c).children n = if p = n then (t.children p).insertIdx i c else t.children n := by
  rw [link, children_setParent, children_setChildren]
  by_cases hn : p = n
  · subst hn
    simp [hp]
  · simp [hn]

end link

/-- A node that can become a child of another: it has no place, and the other is not below it. -/
structure Ready (t : Tree) (p c : NodeId) : Prop where
  known : c < t.nodes.size
  free : t.parent c = none
  not_root : t.root ≠ some c
  ne : c ≠ p
  not_above : ¬ t.Under p c

/-- With one more link, what is new on the way up leads over that link. -/
theorem under_of_link {t : Tree} {p : NodeId} {i : Nat} {c a b : NodeId}
    (hc : c < t.nodes.size) (hab : (t.link p i c).Under a b) :
    t.Under a b ∨ (t.AtOrUnder a c ∧ t.AtOrUnder p b) := by
  have hlink : ∀ a b, (t.link p i c).Link a b → t.Link a b ∨ (a = c ∧ b = p) := by
    intro a b hl
    rw [Link, parent_link a hc] at hl
    split at hl
    · rename_i hca
      exact .inr ⟨hca.symm, (Option.some.inj hl).symm⟩
    · exact .inl hl
  induction hab with
  | single hl =>
    rcases hlink _ _ hl with hl | ⟨rfl, rfl⟩
    · exact .inl (.single hl)
    · exact .inr ⟨.refl, .refl⟩
  | tail _ hl ih =>
    rcases hlink _ _ hl with hl | ⟨rfl, rfl⟩
    · rcases ih with hup | ⟨h1, h2⟩
      · exact .inl (.tail hup hl)
      · exact .inr ⟨h1, .tail h2 hl⟩
    · rcases ih with hup | ⟨h1, _⟩
      · exact .inr ⟨hup.to_reflTransGen, .refl⟩
      · exact .inr ⟨h1, .refl⟩

theorem nodup_insertIdx {i : Nat} {c : NodeId} {cs : List NodeId} (hc : c ∉ cs) (h : cs.Nodup)
    (hi : i ≤ cs.length) : (cs.insertIdx i c).Nodup :=
  (List.perm_insertIdx c cs hi).nodup_iff.mpr (List.nodup_cons.mpr ⟨hc, h⟩)

/-- **Linking a node that is ready keeps an arena well-formed.** -/
theorem WellFormed.link {t : Tree} (h : t.WellFormed) {p c : NodeId} {i : Nat}
    (hp : p < t.nodes.size) (hc : t.Ready p c) (hi : i ≤ (t.children p).length) :
    (t.link p i c).WellFormed := by
  -- a node without a parent is in no list of children
  have hnot : ∀ q, c ∉ t.children q := by
    intro q hq
    have hl := (h.mem_children_iff q c).mp hq
    rw [hc.free] at hl
    exact absurd hl (by simp)
  refine ⟨?_, ?_, ?_, ?_, ?_⟩
  · intro r hr
    rw [size_link]
    exact h.root_known r hr
  · intro r hr
    rw [parent_link r hc.known, if_neg]
    · exact h.root_top r hr
    · rintro rfl
      exact hc.not_root hr
  · intro q
    rw [children_link q hp]
    split
    · exact nodup_insertIdx (hnot p) (h.children_nodup p) hi
    · exact h.children_nodup q
  · intro q n
    rw [children_link q hp, parent_link n hc.known]
    by_cases hcn : c = n
    · subst hcn
      by_cases hpq : p = q
      · simp [hpq, List.mem_insertIdx (hpq ▸ hi)]
      · simp [hpq, hnot q]
    · by_cases hpq : p = q
      · subst hpq
        simp [hcn, Ne.symm hcn, List.mem_insertIdx hi, h.mem_children_iff]
      · simp [hcn, hpq, h.mem_children_iff]
  · intro n hn
    rcases under_of_link hc.known hn with hup | ⟨h1, h2⟩
    · exact h.acyclic n hup
    · -- the cycle would lead from the parent down to the child
      rcases Relation.reflTransGen_iff_eq_or_transGen.mp (h2.trans h1) with heq | hup
      · exact hc.ne heq
      · exact hc.not_above hup

/-! ## The copying rule -/

theorem ready_of_not_mustCopy {t : Tree} (h : t.WellFormed) {p c : NodeId}
    (hc : c < t.nodes.size) (hm : t.mustCopy p c = false) : t.Ready p c := by
  simp only [mustCopy, Bool.or_eq_false_iff] at hm
  obtain ⟨⟨⟨hfree, hne⟩, hroot⟩, habove⟩ := hm
  refine ⟨hc, ?_, ?_, ?_, ?_⟩
  · simpa using hfree
  · simpa [isRoot] using hroot
  · simpa using hne
  · intro hu
    rw [h.dominates_iff.mpr hu] at habove
    exact absurd habove (by simp)

/-- A copy is ready to become a child of any node that was there before. -/
theorem ready_graft {t : Tree} (h : t.WellFormed) (k : Constituent) {p : NodeId}
    (hp : p < t.nodes.size) : (t.graft k).1.Ready p t.nodes.size := by
  refine ⟨?_, ?_, ?_, ?_, ?_⟩
  · rw [size_graft]
    exact Nat.lt_add_of_pos_right k.size_pos
  · exact ((t.segment_graft k).top _ (List.mem_singleton_self _)).2.2
  · intro hr
    exact Nat.lt_irrefl _ (h.root_known _ hr)
  · exact Nat.ne_of_gt hp
  · intro hu
    exact Nat.lt_irrefl _ (h.under_lt_size (h.under_graft k hp hu))

/-- **What `available` gives is ready**, and the arena stays well-formed. -/
theorem available_ready {t : Tree} (h : t.WellFormed) {p c : NodeId} (hp : p < t.nodes.size)
    (hc : c < t.nodes.size) :
    (t.available p c).1.WellFormed ∧ (t.available p c).1.Ready p (t.available p c).2 ∧
      t.nodes.size ≤ (t.available p c).1.nodes.size := by
  unfold available
  split
  · refine ⟨h.graft _, ready_graft h _ hp, ?_⟩
    rw [copySubtree, size_graft]
    exact Nat.le_add_right ..
  · rename_i hm
    exact ⟨h, ready_of_not_mustCopy h hc (by simpa using hm), Nat.le_refl _⟩

/-! ## The operations -/

theorem sameLinks_touch (t : Tree) (n : NodeId) : SameLinks t (t.touch n) :=
  ⟨by rw [nodes_touch], (root_touch t n).symm, fun k => (parent_touch t n k).symm,
    fun k => (children_touch t n k).symm⟩

theorem WellFormed.touch {t : Tree} (h : t.WellFormed) (n : NodeId) : (t.touch n).WellFormed :=
  h.of_sameLinks (sameLinks_touch t n)

theorem WellFormed.setLabel {t : Tree} (h : t.WellFormed) (n : NodeId) (l : Label) :
    (t.setLabel n l).WellFormed :=
  h.of_sameLinks ⟨(size_setLabel t n l).symm, rfl, fun k => (parent_setLabel t n k l).symm,
    fun k => (children_setLabel t n k l).symm⟩

theorem insertChild_fst (t : Tree) (p : NodeId) (i : Nat) (c : NodeId) :
    (t.insertChild p i c).1 =
      ((t.available p c).1.link p (min i ((t.available p c).1.children p).length)
        (t.available p c).2).touch p :=
  rfl

theorem WellFormed.insertChild {t : Tree} (h : t.WellFormed) {p c : NodeId} (i : Nat)
    (hp : p < t.nodes.size) (hc : c < t.nodes.size) : (t.insertChild p i c).1.WellFormed := by
  obtain ⟨hwf, hready, hsize⟩ := available_ready h hp hc
  rw [insertChild_fst]
  exact (hwf.link (Nat.lt_of_lt_of_le hp hsize) hready (Nat.min_le_right ..)).touch p

theorem size_insertChild {t : Tree} (h : t.WellFormed) {p c : NodeId} (i : Nat)
    (hp : p < t.nodes.size) (hc : c < t.nodes.size) :
    t.nodes.size ≤ (t.insertChild p i c).1.nodes.size := by
  rw [insertChild_fst, nodes_touch, size_link]
  exact (available_ready h hp hc).2.2

/-! ### Replacing children -/

/-- Adding nodes and changing a list of children that was there can change places. -/
theorem graft_setChildren (t : Tree) {p : NodeId} (cs : List NodeId) (k : Constituent)
    (hp : p < t.nodes.size) :
    ((t.setChildren p cs).graft k).1 = (t.graft k).1.setChildren p cs := by
  have hnodes :
      ((t.setChildren p cs).graft k).1.nodes = ((t.graft k).1.setChildren p cs).nodes := by
    refine Array.ext_getElem? ?_
    intro n
    simp only [graft, setChildren, Array.getElem?_append, Array.getElem?_modify,
      Array.size_modify]
    by_cases hn : n < t.nodes.size
    · simp [hn]
    · have hne : p ≠ n := fun hpn => hn (hpn ▸ hp)
      simp [hn, hne]
  exact eq_of_fields hnodes rfl rfl

/-- Placing one more node is linking it after those placed before. -/
theorem sameLinks_place (t : Tree) {p : NodeId} (placed : List NodeId) {c : NodeId}
    (hp : p < t.nodes.size) (hc : c < t.nodes.size) :
    SameLinks ((t.setChildren p placed).link p placed.length c)
      ((t.setParent c (some p)).setChildren p (placed ++ [c])) := by
  refine ⟨?_, rfl, ?_, ?_⟩
  · rw [size_link, size_setChildren, size_setChildren, size_setParent]
  · intro n
    rw [parent_link n (by rwa [size_setChildren]), parent_setChildren, parent_setChildren,
      parent_setParent]
    by_cases hn : c = n
    · subst hn
      simp [hc]
    · simp [hn]
  · intro n
    rw [children_link n (by rwa [size_setChildren]), children_setChildren t p n,
      children_setChildren _ p n, size_setParent, children_setParent, children_setChildren t p p]
    by_cases hn : p = n
    · subst hn
      simp [hp]
    · simp [hn]

/-- The node that is placed for another: the node itself, if it can move, or a copy. -/
def place (t : Tree) (p : NodeId) (placed : List NodeId) (c : NodeId) : Tree × NodeId :=
  if placed.contains c then t.copySubtree c else t.available p c

theorem placeAll_cons (t : Tree) (p : NodeId) (placed : List NodeId) (c : NodeId)
    (cs : List NodeId) :
    t.placeAll p placed (c :: cs) =
      ((t.place p placed c).1.setParent (t.place p placed c).2 (some p)).placeAll p
        (placed ++ [(t.place p placed c).2]) cs :=
  rfl

theorem place_cases (t : Tree) (p : NodeId) (placed : List NodeId) (c : NodeId) :
    t.place p placed c = t.graft (t.constituent c) ∨
      (t.place p placed c = (t, c) ∧ t.mustCopy p c = false) := by
  unfold place available
  split
  · exact .inl rfl
  · split
    · exact .inl rfl
    · rename_i hm
      exact .inr ⟨rfl, by simpa using hm⟩

theorem mustCopy_setChildren (t : Tree) (p c q : NodeId) (cs : List NodeId) :
    (t.setChildren q cs).mustCopy p c = t.mustCopy p c := by
  have hparent : (t.setChildren q cs).parent = t.parent :=
    funext fun n => parent_setChildren t q n cs
  simp only [mustCopy, isRoot, dominates, ancestors, walk, hparent, root_setChildren,
    size_setChildren]

/-- **The loop invariant of replacing children**, in one round: what is placed is ready, and the
list with it is the next list of children. -/
theorem place_ready {t : Tree} {p : NodeId} {placed : List NodeId} {c : NodeId}
    (h : (t.setChildren p placed).WellFormed) (hp : p < t.nodes.size) (hc : c < t.nodes.size) :
    ((t.place p placed c).1.setChildren p placed).WellFormed ∧
      ((t.place p placed c).1.setChildren p placed).Ready p (t.place p placed c).2 ∧
      t.nodes.size ≤ (t.place p placed c).1.nodes.size := by
  rcases place_cases t p placed c with hcopy | ⟨hmove, hm⟩
  · rw [hcopy, ← graft_setChildren t placed _ hp]
    refine ⟨h.graft _, ?_, by rw [size_graft]; exact Nat.le_add_right ..⟩
    have hready := ready_graft h (t.constituent c) (p := p) (by rwa [size_setChildren])
    rwa [size_setChildren] at hready
  · rw [hmove]
    refine ⟨h, ready_of_not_mustCopy h (by rwa [size_setChildren]) ?_, Nat.le_refl _⟩
    rwa [mustCopy_setChildren]

theorem place_wellFormed {t : Tree} {p x : NodeId} {placed : List NodeId}
    (h : (t.setChildren p placed).WellFormed) (hp : p < t.nodes.size)
    (hx : (t.setChildren p placed).Ready p x) :
    ((t.setParent x (some p)).setChildren p (placed ++ [x])).WellFormed := by
  have hchildren : (t.setChildren p placed).children p = placed := by
    rw [children_setChildren, if_pos ⟨rfl, hp⟩]
  have hknown : x < t.nodes.size := by
    have hknown := hx.known
    rwa [size_setChildren] at hknown
  have hlink := h.link (i := placed.length) (by rwa [size_setChildren]) hx
    (Nat.le_of_eq (by rw [hchildren]))
  exact hlink.of_sameLinks (sameLinks_place t placed hp hknown)

theorem placeAll_wellFormed {p : NodeId} : ∀ (cs placed : List NodeId) (t : Tree),
    (t.setChildren p placed).WellFormed → p < t.nodes.size → (∀ c ∈ cs, c < t.nodes.size) →
    ((t.placeAll p placed cs).1.setChildren p (t.placeAll p placed cs).2).WellFormed ∧
      t.nodes.size ≤ (t.placeAll p placed cs).1.nodes.size
  | [], placed, t, h, _, _ => ⟨h, Nat.le_refl _⟩
  | c :: cs, placed, t, h, hp, hcs => by
    obtain ⟨hwf, hready, hsize⟩ := place_ready h hp (hcs c (List.mem_cons_self ..))
    have hpu := Nat.lt_of_lt_of_le hp hsize
    rw [placeAll_cons]
    obtain ⟨h1, h2⟩ := placeAll_wellFormed cs _ _ (place_wellFormed hwf hpu hready)
      (by rwa [size_setParent]) fun y hy => by
        rw [size_setParent]
        exact Nat.lt_of_lt_of_le (hcs y (List.mem_cons_of_mem _ hy)) hsize
    rw [size_setParent] at h2
    exact ⟨h1, Nat.le_trans hsize h2⟩

theorem replaceChildren_fst (t : Tree) (p : NodeId) (cs : List NodeId) :
    (t.replaceChildren p cs).1 =
      (((t.releaseChildren p).placeAll p [] cs).1.setChildren p
        ((t.releaseChildren p).placeAll p [] cs).2).touch p :=
  rfl

/-- After the children are released, none are placed yet. -/
theorem WellFormed.setChildren_releaseChildren {t : Tree} (h : t.WellFormed) (p : NodeId) :
    ((t.releaseChildren p).setChildren p []).WellFormed := by
  refine (h.releaseChildren p).of_sameLinks ⟨by rw [size_setChildren], rfl, ?_, ?_⟩
  · intro n
    rw [parent_setChildren]
  · intro n
    rw [children_setChildren, children_releaseChildren]
    by_cases hn : p = n
    · simp [hn]
    · simp [hn]

theorem placeAll_releaseChildren {t : Tree} (h : t.WellFormed) {p : NodeId} {cs : List NodeId}
    (hp : p < t.nodes.size) (hcs : ∀ c ∈ cs, c < t.nodes.size) :
    (((t.releaseChildren p).placeAll p [] cs).1.setChildren p
      ((t.releaseChildren p).placeAll p [] cs).2).WellFormed ∧
      t.nodes.size ≤ ((t.releaseChildren p).placeAll p [] cs).1.nodes.size := by
  have hplace := placeAll_wellFormed cs [] (t.releaseChildren p) (h.setChildren_releaseChildren p)
    (by rwa [size_releaseChildren]) (by rwa [size_releaseChildren])
  rwa [size_releaseChildren] at hplace

theorem WellFormed.replaceChildren {t : Tree} (h : t.WellFormed) {p : NodeId} {cs : List NodeId}
    (hp : p < t.nodes.size) (hcs : ∀ c ∈ cs, c < t.nodes.size) :
    (t.replaceChildren p cs).1.WellFormed := by
  rw [replaceChildren_fst]
  exact (placeAll_releaseChildren h hp hcs).1.touch p

theorem size_replaceChildren {t : Tree} (h : t.WellFormed) {p : NodeId} {cs : List NodeId}
    (hp : p < t.nodes.size) (hcs : ∀ c ∈ cs, c < t.nodes.size) :
    t.nodes.size ≤ (t.replaceChildren p cs).1.nodes.size := by
  rw [replaceChildren_fst, nodes_touch, size_setChildren]
  exact (placeAll_releaseChildren h hp hcs).2

/-! ### Detaching, and the root -/

/-- A top of the forest can be made the root, or no node at all. -/
theorem WellFormed.withRoot {t : Tree} (h : t.WellFormed) {root : Option NodeId} (revision : Nat)
    (hroot : ∀ r, root = some r → r < t.nodes.size ∧ t.parent r = none) :
    (⟨t.nodes, root, revision⟩ : Tree).WellFormed :=
  ⟨fun r hr => (hroot r hr).1, fun r hr => (hroot r hr).2, h.children_nodup, h.mem_children_iff,
    h.acyclic⟩

theorem detach_of_parent {t : Tree} {id p : NodeId} (hp : t.parent id = some p) :
    t.detach id = (t.unlink p id).touch p := by
  rw [detach, hp]
  rfl

theorem detach_of_parent_none {t : Tree} {id : NodeId} (hp : t.parent id = none) :
    t.detach id = if t.isRoot id then ⟨t.nodes, none, t.revision + 1⟩ else t := by
  rw [detach, hp]

theorem WellFormed.detach {t : Tree} (h : t.WellFormed) (id : NodeId) :
    (t.detach id).WellFormed := by
  cases hp : t.parent id with
  | some p =>
    rw [detach_of_parent hp]
    exact (h.unlink hp).touch p
  | none =>
    rw [detach_of_parent_none hp]
    split
    · exact h.withRoot _ fun r hr => absurd hr (by simp)
    · exact h

@[simp] theorem size_detach (t : Tree) (id : NodeId) :
    (t.detach id).nodes.size = t.nodes.size := by
  cases hp : t.parent id with
  | some p => rw [detach_of_parent hp, nodes_touch, size_unlink]
  | none =>
    rw [detach_of_parent_none hp]
    split <;> rfl

theorem parent_detach_self (t : Tree) (id : NodeId) : (t.detach id).parent id = none := by
  cases hp : t.parent id with
  | some p => rw [detach_of_parent hp, parent_touch, parent_unlink, if_pos rfl]
  | none =>
    rw [detach_of_parent_none hp]
    split <;> exact hp

theorem WellFormed.setRoot {t : Tree} (h : t.WellFormed) {id : Option NodeId}
    (hid : ∀ r, id = some r → r < t.nodes.size) : (t.setRoot id).WellFormed := by
  cases id with
  | none => exact h.withRoot _ fun r hr => absurd hr (by simp)
  | some r =>
    refine (h.detach r).withRoot _ ?_
    intro q hq
    obtain rfl := Option.some.inj hq
    exact ⟨by rw [size_detach]; exact hid r rfl, parent_detach_self t r⟩

@[simp] theorem size_setRoot (t : Tree) (id : Option NodeId) :
    (t.setRoot id).nodes.size = t.nodes.size := by
  cases id with
  | none => rfl
  | some r => exact size_detach t r

/-! ## Where trees come from -/

theorem wellFormed_empty : empty.WellFormed := by
  have hp : ∀ n, empty.parent n = none := fun n => parent_of_not_contains (Nat.not_lt_zero n)
  have hc : ∀ n, empty.children n = [] := fun n => children_of_not_contains (Nat.not_lt_zero n)
  refine ⟨fun r hr => absurd hr (by simp [empty]), fun r hr => absurd hr (by simp [empty]),
    fun p => by simp [hc], fun p c => by simp [hp, hc], fun n hn => ?_⟩
  obtain ⟨m, hm, _⟩ := Relation.TransGen.head'_iff.mp hn
  rw [Link, hp] at hm
  exact absurd hm (by simp)

/-- **A tree built from a labelled tree is well-formed**; so is one with a single node. -/
theorem wellFormed_ofConstituent (c : Option Constituent) : (ofConstituent c).WellFormed := by
  cases c with
  | none => exact wellFormed_empty
  | some c =>
    have hnodes : (ofConstituent (some c)).nodes = (empty.graft c).1.nodes := by
      simp [ofConstituent, graft, empty]
    have htop : ∀ r : NodeId, some 0 = some r →
        r < (empty.graft c).1.nodes.size ∧ (empty.graft c).1.parent r = none := by
      intro r hr
      obtain rfl := Option.some.inj hr
      exact ((empty.segment_graft c).top 0 (List.mem_singleton_self _)).2
    have hg := (wellFormed_empty.graft c).withRoot c.size htop
    rw [← hnodes] at hg
    exact hg

theorem wellFormed_singleton (l : Label) : (singleton l).WellFormed :=
  (wellFormed_ofConstituent (some (.node l []))).of_sameLinks
    ⟨rfl, rfl, fun _ => rfl, fun _ => rfl⟩

end Constituency.Tree
