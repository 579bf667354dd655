import Constituency.Proofs.Tree.Preservation

/-!
# Sequences of requests, and growing arenas

A request keeps an arena well-formed whether it is carried out or refused, and
no request makes an arena smaller. `Edits` relates a tree to what known requests
make of it one after the other; everything that is done to a tree is such a
sequence.

`Grown` relates it to what grafts alone make of it. They leave the attached part
as it was: a traversal from the root never comes to the new nodes.
-/

namespace Constituency.Tree

variable {t u v : Tree}

/-! ## Requests -/

/-- **A request whose nodes are known keeps an arena well-formed.** -/
theorem WellFormed.perform (h : t.WellFormed) {r : Request} (hr : r.isKnown t = true) :
    (t.perform r).1.WellFormed := by
  cases r with
  | addNode l => exact h.graft _
  | pushChild p c =>
    simp only [Request.isKnown, Bool.and_eq_true, contains_eq_true] at hr
    exact h.insertChild _ hr.1 hr.2
  | insertChild p i c =>
    simp only [Request.isKnown, Bool.and_eq_true, contains_eq_true] at hr
    exact h.insertChild i hr.1 hr.2
  | replaceChildren p cs =>
    simp only [Request.isKnown, Bool.and_eq_true, List.all_eq_true, contains_eq_true] at hr
    exact h.replaceChildren hr.1 hr.2
  | detach n => exact h.detach n
  | setRoot n =>
    refine h.setRoot ?_
    intro r hn
    subst hn
    exact contains_eq_true.mp hr
  | setLabel n l => exact h.setLabel n l
  | copySubtree n => exact h.graft _
  | importSubtree other n => exact h.graft _

/-- No request makes an arena smaller. -/
theorem WellFormed.size_perform (h : t.WellFormed) {r : Request} (hr : r.isKnown t = true) :
    t.nodes.size ≤ (t.perform r).1.nodes.size := by
  have hgraft : ∀ c, t.nodes.size ≤ (t.graft c).1.nodes.size := fun c => by
    rw [size_graft]
    exact Nat.le_add_right ..
  cases r with
  | addNode l => exact hgraft _
  | pushChild p c =>
    simp only [Request.isKnown, Bool.and_eq_true, contains_eq_true] at hr
    exact size_insertChild h _ hr.1 hr.2
  | insertChild p i c =>
    simp only [Request.isKnown, Bool.and_eq_true, contains_eq_true] at hr
    exact size_insertChild h i hr.1 hr.2
  | replaceChildren p cs =>
    simp only [Request.isKnown, Bool.and_eq_true, List.all_eq_true, contains_eq_true] at hr
    exact size_replaceChildren h hr.1 hr.2
  | detach n => exact Nat.le_of_eq (size_detach t n).symm
  | setRoot n => exact Nat.le_of_eq (size_setRoot t n).symm
  | setLabel n l => exact Nat.le_of_eq (size_setLabel t n l).symm
  | copySubtree n => exact hgraft _
  | importSubtree other n => exact hgraft _

/-- A request that is refused keeps an arena well-formed too. -/
theorem WellFormed.request (h : t.WellFormed) (r : Request) : (t.request r).1.WellFormed := by
  unfold Tree.request
  split
  · rename_i hr
    exact h.perform hr
  · cases r with
    | replaceChildren p cs => exact h.releaseChildren p
    | _ => exact h

/-! ## What requests make of a tree -/

/-- The second tree is what requests with known nodes make of the first. -/
inductive Edits : Tree → Tree → Prop where
  | refl (t : Tree) : Edits t t
  | tail {t u : Tree} {r : Request} : Edits t u → r.isKnown u = true → Edits t (u.perform r).1

theorem Edits.single {r : Request} (hr : r.isKnown t = true) : Edits t (t.perform r).1 :=
  .tail (.refl t) hr

theorem Edits.trans (htu : Edits t u) (huv : Edits u v) : Edits t v := by
  induction huv with
  | refl => exact htu
  | tail _ hr ih => exact .tail ih hr

/-- **Requests keep an arena well-formed, and all its nodes.** -/
theorem WellFormed.edits (h : t.WellFormed) (hu : Edits t u) :
    u.WellFormed ∧ t.nodes.size ≤ u.nodes.size := by
  induction hu with
  | refl => exact ⟨h, Nat.le_refl _⟩
  | tail _ hr ih => exact ⟨ih.1.perform hr, Nat.le_trans ih.2 (ih.1.size_perform hr)⟩

/-- Adding a labelled tree is importing it from a tree of its own. -/
theorem perform_importSubtree (t : Tree) (c : Constituent) :
    (t.perform (.importSubtree (ofConstituent (some c)) 0)).1 = (t.graft c).1 := by
  show (t.graft ((ofConstituent (some c)).constituent 0)).1 = (t.graft c).1
  rw [constituent_ofConstituent]

theorem Edits.graft (t : Tree) (c : Constituent) : Edits t (t.graft c).1 := by
  rw [← perform_importSubtree]
  refine .single (contains_eq_true.mpr ?_)
  rw [size_ofConstituent]
  exact c.size_pos

/-! ## Growing arenas -/

/-- The second tree is the first with labelled trees added to its arena. -/
inductive Grown : Tree → Tree → Prop where
  | refl (t : Tree) : Grown t t
  | tail {t u : Tree} (c : Constituent) : Grown t u → Grown t (u.graft c).1

namespace Grown

theorem single (t : Tree) (c : Constituent) : Grown t (t.graft c).1 := .tail c (.refl t)

theorem trans (htu : Grown t u) (huv : Grown u v) : Grown t v := by
  induction huv with
  | refl => exact htu
  | tail c _ ih => exact .tail c ih

theorem edits (h : Grown t u) : Edits t u := by
  induction h with
  | refl => exact .refl _
  | @tail u c _ ih => exact ih.trans (.graft u c)

theorem size_le (h : Grown t u) : t.nodes.size ≤ u.nodes.size := by
  induction h with
  | refl => exact Nat.le_refl _
  | tail c _ ih =>
    rw [size_graft]
    exact Nat.le_trans ih (Nat.le_add_right ..)

theorem root_eq (h : Grown t u) : u.root = t.root := by
  induction h with
  | refl => rfl
  | tail c _ ih => rw [root_graft, ih]

theorem revision_eq (h : Grown t u) : u.revision = t.revision := by
  induction h with
  | refl => rfl
  | tail c _ ih => rw [revision_graft, ih]

/-- What is said about a node does not change. -/
theorem reads_eq (h : Grown t u) {n : NodeId} (hn : n < t.nodes.size) :
    u.label n = t.label n ∧ u.parent n = t.parent n ∧ u.children n = t.children n := by
  induction h with
  | refl => exact ⟨rfl, rfl, rfl⟩
  | tail c hu ih =>
    have hn := Nat.lt_of_lt_of_le hn hu.size_le
    rw [label_graft _ c hn, parent_graft _ c hn, children_graft _ c hn]
    exact ih

/-- **The attached nodes are the same, in the same order.** -/
theorem attached_eq (h : Grown t u) (ht : t.WellFormed) : u.attached = t.attached := by
  have hu := (ht.edits h.edits).1
  have hpre : ∀ n, n < t.nodes.size → u.preorder n = t.preorder n := by
    intro n
    induction n using ht.down_induction with
    | step n ih =>
      intro hn
      rw [hu.preorder_eq, ht.preorder_eq, (h.reads_eq hn).2.2]
      congr 1
      exact List.flatMap_congr fun c hc => ih c hc (ht.child_lt_size hc)
  unfold attached
  rw [h.root_eq]
  cases hr : t.root with
  | none => rfl
  | some r => exact hpre r (ht.root_known r hr)

theorem isAttached_eq (h : Grown t u) (ht : t.WellFormed) (n : NodeId) :
    u.isAttached n = t.isAttached n := by
  rw [Bool.eq_iff_iff, ← (ht.edits h.edits).1.mem_attached_iff, ← ht.mem_attached_iff,
    h.attached_eq ht]

end Grown

/-- The root does not reach a new node. -/
theorem WellFormed.isAttached_graft_of_le (h : t.WellFormed) (c : Constituent) {n : NodeId}
    (hn : t.nodes.size ≤ n) : (t.graft c).1.isAttached n = false := by
  rw [(Grown.single t c).isAttached_eq h, Bool.eq_false_iff]
  exact fun hattached => absurd (h.lt_size_of_isAttached hattached) (Nat.not_lt.mpr hn)

/-- A new node is the root of the labelled tree or has a parent. -/
theorem parent_graft_of_le (t : Tree) (c : Constituent) {n : NodeId} (hn : t.nodes.size ≤ n)
    (hlt : n < (t.graft c).1.nodes.size) :
    n = t.nodes.size ∨ ((t.graft c).1.parent n).isSome = true := by
  rcases (t.segment_graft c).link n hn hlt with ⟨hmem, _⟩ | ⟨p, _, _, hp, _⟩
  · exact .inl (List.mem_singleton.mp hmem)
  · rw [hp]
    exact .inr rfl

end Constituency.Tree
