import Constituency.Proofs.Tree.Places

/-!
# The revision tells the structure

A tree counts the changes to its attached part. Every request decides only after its work whether
the node it worked at is attached, and counts if it is. `revision_perform` says that this decision
is right: a request counts exactly if it is not one of those that relabel, copy, or work at a
detached node, and if it does not count, the attached part is the same as before, labels apart.

What makes the late decision right is that no request changes the way up from the node it works at.
A child that moves there is neither that node nor above it, and a child that leaves it is below it.
So the node is attached afterwards exactly if it was before.

Over any sequence of requests the revision therefore never goes down, and two states with one
revision have one structure.
-/

namespace Constituency.Tree

/-- Two states of a tree with the same attached nodes in the same places; labels may differ. -/
structure SameAttached (t u : Tree) : Prop where
  root : u.root = t.root
  attached : u.attached = t.attached
  children : ∀ n ∈ t.attached, u.children n = t.children n
  parent : ∀ n ∈ t.attached, u.parent n = t.parent n

variable {t u v : Tree}

namespace SameAttached

theorem refl (t : Tree) : SameAttached t t := ⟨rfl, rfl, fun _ _ => rfl, fun _ _ => rfl⟩

theorem trans (htu : SameAttached t u) (huv : SameAttached u v) : SameAttached t v := by
  have hmem : ∀ n ∈ t.attached, n ∈ u.attached := fun n hn => by rwa [htu.attached]
  refine ⟨huv.root.trans htu.root, huv.attached.trans htu.attached, ?_, ?_⟩
  · intro n hn
    rw [huv.children n (hmem n hn), htu.children n hn]
  · intro n hn
    rw [huv.parent n (hmem n hn), htu.parent n hn]

theorem isAttached (h : SameAttached t u) (ht : t.WellFormed) (hu : u.WellFormed) (n : NodeId) :
    u.isAttached n = t.isAttached n := by
  rw [Bool.eq_iff_iff, ← hu.mem_attached_iff, ← ht.mem_attached_iff, h.attached]

end SameAttached

namespace WellFormed

/-! ## What the attached part depends on -/

/-- The attached part is determined by the root and the children of the attached nodes. -/
theorem sameAttached (ht : t.WellFormed) (hu : u.WellFormed) (hroot : u.root = t.root)
    (hchildren : ∀ n, t.isAttached n = true → u.children n = t.children n) :
    SameAttached t u := by
  have hpre : ∀ n, t.isAttached n = true → u.preorder n = t.preorder n := by
    intro n
    induction n using ht.down_induction with
    | step n ih =>
      intro hn
      rw [hu.preorder_eq, ht.preorder_eq, hchildren n hn]
      congr 1
      refine List.flatMap_congr fun c hc => ih c hc ?_
      rwa [ht.isAttached_of_parent ((ht.mem_children_iff n c).mp hc)]
  have hattached : u.attached = t.attached := by
    unfold attached
    rw [hroot]
    cases hr : t.root with
    | none => rfl
    | some r => exact hpre r (ht.isAttached_iff.mpr ⟨r, hr, .refl⟩)
  refine ⟨hroot, hattached, fun n hn => hchildren n (ht.mem_attached_iff.mp hn), ?_⟩
  intro n hn
  have hn := ht.mem_attached_iff.mp hn
  cases hp : t.parent n with
  | some p =>
    -- the parent is attached too, and lists the node
    have hmem := (ht.mem_children_iff p n).mpr hp
    rw [← hchildren p (by rwa [← ht.isAttached_of_parent hp])] at hmem
    exact (hu.mem_children_iff p n).mp hmem
  | none =>
    have hr : t.root = some n := by
      rwa [Tree.isAttached, ht.summit_of_parent_none hp, beq_iff_eq] at hn
    exact hu.root_top n (hroot.trans hr)

/-- A node is attached as before if the way up from it is. -/
theorem isAttached_congr (ht : t.WellFormed) (hu : u.WellFormed) {n : NodeId}
    (hroot : u.root = t.root) (hparent : ∀ m, t.AtOrUnder n m → u.parent m = t.parent m) :
    u.isAttached n = t.isAttached n := by
  have hup : u.ancestors n = t.ancestors n := by
    clear hroot
    induction n using ht.up_induction with
    | step n ih =>
      rw [hu.ancestors_eq, ht.ancestors_eq, hparent n .refl]
      cases hp : t.parent n with
      | none => rfl
      | some p =>
        dsimp only
        rw [ih p hp fun m hm => hparent m (.head hp hm)]
  rw [Tree.isAttached, Tree.isAttached, summit, summit, hup, hroot]

/-- A node that is ready to become a child of another is not on the way up from it. -/
theorem ne_of_ready {p c m : NodeId} (hc : t.Ready p c) (hm : t.AtOrUnder p m) : c ≠ m := by
  rintro rfl
  rcases Relation.reflTransGen_iff_eq_or_transGen.mp hm with heq | hup
  · exact hc.ne heq
  · exact hc.not_above hup

end WellFormed

/-! ## Inserting a child -/

theorem revision_touch (t : Tree) (n : NodeId) :
    (t.touch n).revision = t.revision + if t.isAttached n then 1 else 0 := by
  unfold touch
  split <;> rfl

/-- What is made available is the node itself, or a copy added to the arena. -/
theorem grown_available (t : Tree) (p c : NodeId) : Grown t (t.available p c).1 := by
  unfold available
  split
  · exact .single t _
  · exact .refl t

theorem isAttached_link (h : t.WellFormed) {p c : NodeId} {i : Nat} (hp : p < t.nodes.size)
    (hc : t.Ready p c) (hi : i ≤ (t.children p).length) :
    (t.link p i c).isAttached p = t.isAttached p := by
  refine h.isAttached_congr (h.link hp hc hi) rfl ?_
  intro m hm
  rw [parent_link m hc.known, if_neg (WellFormed.ne_of_ready hc hm)]

section insertChild

variable {p c : NodeId} (h : t.WellFormed) (i : Nat) (hp : p < t.nodes.size)
  (hc : c < t.nodes.size)

include h hp hc

theorem revision_insertChild :
    (t.insertChild p i c).1.revision = t.revision + if t.isAttached p then 1 else 0 := by
  obtain ⟨hwf, hready, hsize⟩ := available_ready h hp hc
  have hgrown := t.grown_available p c
  rw [insertChild_fst, revision_touch, isAttached_link hwf (Nat.lt_of_lt_of_le hp hsize) hready
    (Nat.min_le_right ..), hgrown.isAttached_eq h]
  show (t.available p c).1.revision + _ = _
  rw [hgrown.revision_eq]

theorem sameAttached_insertChild (hdetached : t.isAttached p = false) :
    SameAttached t (t.insertChild p i c).1 := by
  have hsize := (available_ready h hp hc).2.2
  have hgrown := t.grown_available p c
  refine h.sameAttached (h.insertChild i hp hc) ?_ ?_
  · rw [insertChild_fst, root_touch]
    exact hgrown.root_eq
  · intro n hn
    have hne : p ≠ n := fun hpn => by
      rw [hpn, hn] at hdetached
      exact absurd hdetached (by simp)
    rw [insertChild_fst, children_touch, children_link n (Nat.lt_of_lt_of_le hp hsize), if_neg hne]
    exact (hgrown.reads_eq (h.lt_size_of_isAttached hn)).2.2

end insertChild

/-! ## Replacing children -/

theorem revision_place (t : Tree) (p : NodeId) (placed : List NodeId) (c : NodeId) :
    (t.place p placed c).1.revision = t.revision := by
  rcases place_cases t p placed c with h | ⟨h, _⟩
  · rw [h, revision_graft]
  · rw [h]

theorem children_place (t : Tree) (p : NodeId) (placed : List NodeId) (c : NodeId) {n : NodeId}
    (hn : n < t.nodes.size) : (t.place p placed c).1.children n = t.children n := by
  rcases place_cases t p placed c with h | ⟨h, _⟩
  · rw [h, children_graft t _ hn]
  · rw [h]

theorem revision_placeAll (p : NodeId) : ∀ (cs placed : List NodeId) (t : Tree),
    (t.placeAll p placed cs).1.revision = t.revision
  | [], _, _ => rfl
  | c :: cs, placed, t => by
    rw [placeAll_cons, revision_placeAll p cs, revision_setParent, revision_place]

/-- Placing nodes changes no list of children. -/
theorem children_placeAll (p : NodeId) {n : NodeId} : ∀ (cs placed : List NodeId) (t : Tree),
    n < t.nodes.size → (t.placeAll p placed cs).1.children n = t.children n
  | [], _, _, _ => rfl
  | c :: cs, placed, t, hn => by
    have hsize := t.size_place p placed c
    rw [placeAll_cons, children_placeAll p cs, children_setParent, children_place t p placed c hn]
    rw [size_setParent]
    exact Nat.lt_of_lt_of_le hn hsize

/-- Placing nodes changes nothing on the way up from their new parent: a node that is there is
copied. -/
theorem parent_placeAll_of_atOrUnder {p m : NodeId} : ∀ (cs placed : List NodeId) (t : Tree),
    (t.setChildren p placed).WellFormed → p < t.nodes.size → (∀ c ∈ cs, c < t.nodes.size) →
    t.AtOrUnder p m → m < t.nodes.size → (t.placeAll p placed cs).1.parent m = t.parent m
  | [], _, _, _, _, _, _, _ => rfl
  | c :: cs, placed, t, h, hp, hcs, hm, hmt => by
    obtain ⟨hwf, hready, hsize⟩ := place_ready h hp (hcs c (List.mem_cons_self ..))
    have hpu := Nat.lt_of_lt_of_le hp hsize
    rw [placeAll_cons]
    generalize hx : (t.place p placed c).2 = x at hready
    -- the nodes on the way up keep their parents in this round, so it is the same way
    have hkeep : ∀ a, t.AtOrUnder p a → a < t.nodes.size →
        ((t.place p placed c).1.setParent x (some p)).parent a = t.parent a ∧
          ((t.place p placed c).1.setParent x (some p)).AtOrUnder p a := by
      intro a ha
      induction ha with
      | refl =>
        intro hlt
        refine ⟨?_, .refl⟩
        rw [parent_setParent, if_neg fun heq : x = p ∧ _ => hready.ne heq.1,
          parent_place t p placed c hlt]
      | @tail a b hpa hab ih =>
        intro hlt
        obtain ⟨hpar, hup⟩ := ih (lt_size_of_parent hab)
        have hup : ((t.place p placed c).1.setParent x (some p)).AtOrUnder p b :=
          .tail hup (hpar.trans hab)
        refine ⟨?_, hup⟩
        rw [parent_setParent, if_neg, parent_place t p placed c hlt]
        rintro ⟨rfl, _⟩
        -- a ready node is not above `p`, neither before it gets its parent nor after
        have hnot := hready.not_above
        rw [under_setChildren] at hnot
        rcases Relation.reflTransGen_iff_eq_or_transGen.mp hup with heq | hu
        · exact hready.ne heq
        · exact hnot (under_of_setParent hready.ne hnot hu)
    obtain ⟨hpar, hup⟩ := hkeep m hm hmt
    have hplaced := place_wellFormed hwf hpu hready
    rw [parent_placeAll_of_atOrUnder cs _ _ hplaced (by rwa [size_setParent]) ?_ hup ?_, hpar]
    · intro y hy
      rw [size_setParent]
      exact Nat.lt_of_lt_of_le (hcs y (List.mem_cons_of_mem _ hy)) hsize
    · rw [size_setParent]
      exact Nat.lt_of_lt_of_le hmt hsize

section replaceChildren

variable {p : NodeId} {cs : List NodeId} (h : t.WellFormed) (hp : p < t.nodes.size)
  (hcs : ∀ c ∈ cs, c < t.nodes.size)

include h hp hcs

/-- Before the change is counted, the parent is attached exactly if it was. -/
theorem isAttached_placeAll :
    (((t.releaseChildren p).placeAll p [] cs).1.setChildren p
      ((t.releaseChildren p).placeAll p [] cs).2).isAttached p = t.isAttached p := by
  refine h.isAttached_congr (placeAll_releaseChildren h hp hcs).1 ?_ ?_
  · rw [root_setChildren, root_placeAll, root_releaseChildren]
  · intro m hm
    -- nothing on the way up is a child of `p`, so it is the same way after the release
    have hreleased : ∀ a, t.AtOrUnder p a →
        (t.releaseChildren p).parent a = t.parent a ∧ (t.releaseChildren p).AtOrUnder p a := by
      intro a ha
      induction ha with
      | refl =>
        exact ⟨by rw [parent_releaseChildren,
          if_neg (h.not_mem_children_of_atOrUnder .refl)], .refl⟩
      | @tail a b hpa hab ih =>
        refine ⟨?_, .tail ih.2 (ih.1.trans hab)⟩
        rw [parent_releaseChildren, if_neg (h.not_mem_children_of_atOrUnder (.tail hpa hab))]
    have hlt : m < t.nodes.size := by
      rcases Relation.reflTransGen_iff_eq_or_transGen.mp hm with rfl | hu
      · exact hp
      · exact h.under_lt_size hu
    rw [parent_setChildren, parent_placeAll_of_atOrUnder cs [] _ (h.setChildren_releaseChildren p)
      (by rwa [size_releaseChildren]) (by rwa [size_releaseChildren]) (hreleased m hm).2
      (by rwa [size_releaseChildren]), (hreleased m hm).1]

theorem revision_replaceChildren :
    (t.replaceChildren p cs).1.revision = t.revision + if t.isAttached p then 1 else 0 := by
  rw [replaceChildren_fst, revision_touch, isAttached_placeAll h hp hcs, revision_setChildren,
    revision_placeAll, revision_releaseChildren]

theorem sameAttached_replaceChildren (hdetached : t.isAttached p = false) :
    SameAttached t (t.replaceChildren p cs).1 := by
  refine h.sameAttached (h.replaceChildren hp hcs) (root_replaceChildren t p cs) ?_
  intro n hn
  have hne : p ≠ n := fun hpn => by
    rw [hpn, hn] at hdetached
    exact absurd hdetached (by simp)
  rw [replaceChildren_fst, children_touch, children_setChildren, if_neg fun heq => hne heq.1,
    children_placeAll, children_releaseChildren, if_neg hne]
  rw [size_releaseChildren]
  exact h.lt_size_of_isAttached hn

end replaceChildren

/-! ## Detaching, and the root -/

section detach

variable (h : t.WellFormed) (n : NodeId)

include h

theorem revision_detach :
    (t.detach n).revision = t.revision + if t.isAttached n then 1 else 0 := by
  cases hp : t.parent n with
  | some p =>
    have hup : (t.unlink p n).isAttached p = t.isAttached p := by
      refine h.isAttached_congr (h.unlink hp) rfl ?_
      intro m hm
      have hne : n ≠ m := by
        rintro rfl
        exact h.not_mem_children_of_atOrUnder hm ((h.mem_children_iff p n).mpr hp)
      rw [parent_unlink, if_neg hne]
    rw [detach_of_parent hp, revision_touch, hup, h.isAttached_of_parent hp]
    rfl
  | none =>
    have hroot : t.isAttached n = t.isRoot n := by
      rw [Tree.isAttached, h.summit_of_parent_none hp]
      rfl
    rw [detach_of_parent_none hp, hroot]
    split <;> rfl

theorem sameAttached_detach (hdetached : t.isAttached n = false) :
    SameAttached t (t.detach n) := by
  cases hp : t.parent n with
  | some p =>
    rw [h.isAttached_of_parent hp] at hdetached
    rw [detach_of_parent hp]
    refine h.sameAttached ((h.unlink hp).touch p) (by rw [root_touch]; rfl) ?_
    intro m hm
    have hne : p ≠ m := fun hpm => by
      rw [hpm, hm] at hdetached
      exact absurd hdetached (by simp)
    rw [children_touch, children_unlink, if_neg hne]
  | none =>
    have hroot : t.isRoot n = false := by
      rw [Tree.isAttached, h.summit_of_parent_none hp] at hdetached
      exact hdetached
    rw [detach_of_parent_none hp, hroot]
    exact .refl t

end detach

theorem revision_setRoot_gt (h : t.WellFormed) (n : Option NodeId) :
    t.revision < (t.setRoot n).revision := by
  cases n with
  | none => exact Nat.lt_succ_self _
  | some n =>
    show t.revision < (t.detach n).revision + 1
    rw [revision_detach h]
    omega

/-! ## Requests -/

/-- Whether a request changes labels or detached nodes only. -/
def Request.keepsStructure (t : Tree) : Request → Bool
  | .addNode _ => true
  | .pushChild p _ => !t.isAttached p
  | .insertChild p _ _ => !t.isAttached p
  | .replaceChildren p _ => !t.isAttached p
  | .detach n => !t.isAttached n
  | .setRoot _ => false
  | .setLabel _ _ => true
  | .copySubtree _ => true
  | .importSubtree _ _ => true

theorem sameAttached_graft (h : t.WellFormed) (c : Constituent) : SameAttached t (t.graft c).1 :=
  h.sameAttached (h.graft c) rfl fun _ hn => children_graft t c (h.lt_size_of_isAttached hn)

theorem sameAttached_setLabel (h : t.WellFormed) (n : NodeId) (l : Label) :
    SameAttached t (t.setLabel n l) :=
  h.sameAttached (h.setLabel n l) rfl fun m _ => children_setLabel t n m l

/-- **A request counts exactly if it may change the structure of the attached part**, and otherwise
leaves that part as it was. -/
theorem revision_perform (h : t.WellFormed) {r : Request} (hr : r.isKnown t = true) :
    (r.keepsStructure t = true → (t.perform r).1.revision = t.revision ∧
      SameAttached t (t.perform r).1) ∧
    (r.keepsStructure t = false → t.revision < (t.perform r).1.revision) := by
  -- what works at one node counts if that is attached; what cannot matter never does
  have hcounted : ∀ {n : NodeId} {u : Tree},
      u.revision = t.revision + (if t.isAttached n then 1 else 0) →
      (t.isAttached n = false → SameAttached t u) →
      ((!t.isAttached n) = true → u.revision = t.revision ∧ SameAttached t u) ∧
        ((!t.isAttached n) = false → t.revision < u.revision) := by
    intro n u hrev hsame
    cases hn : t.isAttached n with
    | true => exact ⟨fun hno => absurd hno (by simp), fun _ => by rw [hrev, hn, if_pos rfl]; omega⟩
    | false => exact ⟨fun _ => ⟨by rw [hrev, hn]; rfl, hsame hn⟩, fun hno => absurd hno (by simp)⟩
  have hkept : ∀ {u : Tree}, u.revision = t.revision → SameAttached t u →
      (true = true → u.revision = t.revision ∧ SameAttached t u) ∧
        (true = false → t.revision < u.revision) :=
    fun hrev hsame => ⟨fun _ => ⟨hrev, hsame⟩, fun hno => absurd hno (by simp)⟩
  cases r with
  | addNode l => exact hkept rfl (sameAttached_graft h _)
  | pushChild p c =>
    simp only [Request.isKnown, Bool.and_eq_true, contains_eq_true] at hr
    exact hcounted (revision_insertChild h _ hr.1 hr.2) (sameAttached_insertChild h _ hr.1 hr.2)
  | insertChild p i c =>
    simp only [Request.isKnown, Bool.and_eq_true, contains_eq_true] at hr
    exact hcounted (revision_insertChild h i hr.1 hr.2) (sameAttached_insertChild h i hr.1 hr.2)
  | replaceChildren p cs =>
    simp only [Request.isKnown, Bool.and_eq_true, List.all_eq_true, contains_eq_true] at hr
    exact hcounted (revision_replaceChildren h hr.1 hr.2)
      (sameAttached_replaceChildren h hr.1 hr.2)
  | detach n => exact hcounted (revision_detach h n) (sameAttached_detach h n)
  | setRoot n => exact ⟨fun hno => absurd hno (by simp [Request.keepsStructure]),
      fun _ => revision_setRoot_gt h n⟩
  | setLabel n l => exact hkept rfl (sameAttached_setLabel h n l)
  | copySubtree n => exact hkept rfl (sameAttached_graft h _)
  | importSubtree other n => exact hkept rfl (sameAttached_graft h _)

/-! ## Sequences of requests -/

/-- **The revision never goes down.** -/
theorem Edits.revision_le (hu : Edits t u) (h : t.WellFormed) : t.revision ≤ u.revision := by
  induction hu with
  | refl => exact Nat.le_refl _
  | @tail u r hu hr ih =>
    obtain ⟨hkeeps, hcounts⟩ := revision_perform (h.edits hu).1 hr
    cases hk : r.keepsStructure u with
    | true => exact Nat.le_trans ih (Nat.le_of_eq (hkeeps hk).1.symm)
    | false => exact Nat.le_trans ih (Nat.le_of_lt (hcounts hk))

/-- **Where the revision is the same, so is the attached part.** -/
theorem Edits.sameAttached (hu : Edits t u) (h : t.WellFormed) (hrev : u.revision = t.revision) :
    SameAttached t u := by
  induction hu with
  | refl => exact .refl t
  | @tail u r hu hr ih =>
    obtain ⟨hkeeps, hcounts⟩ := revision_perform (h.edits hu).1 hr
    have hle := hu.revision_le h
    cases hk : r.keepsStructure u with
    | true =>
      obtain ⟨hsame, hattached⟩ := hkeeps hk
      exact (ih (hsame.symm.trans hrev)).trans hattached
    | false =>
      have hlt := hcounts hk
      omega

end Constituency.Tree
