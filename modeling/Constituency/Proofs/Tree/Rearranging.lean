import Constituency.Proofs.Tree.Revision

/-!
# Rearranging nodes without copies

An edit copies a node that cannot move. Where all nodes can, the arena keeps its size and its
labels, and the edit comes down to a new root and new lists of children (`Rearranged`). Since the
arena stays well-formed, these determine the parents, too.

That a node can move is seen from two facts. A top other than the root can move below any attached
node (`ready_of_isAttached`); and nodes are attached as soon as each of them is the root or a child
of another one (`isAttached_of_supported`).
-/

namespace Constituency.Tree

variable {t u v : Tree} {p c n : NodeId} {cs : List NodeId}

/-! ## Which nodes are attached, and which can move -/

/-- Nodes each of which is the root or a child of another of them are attached. -/
theorem WellFormed.isAttached_of_supported (h : t.WellFormed) (among : NodeId → Prop)
    (hamong : ∀ n, among n → t.root = some n ∨ ∃ p, among p ∧ n ∈ t.children p)
    (hn : among n) : t.isAttached n = true := by
  induction n using h.up_induction with
  | step n ih =>
    rcases hamong n hn with hroot | ⟨p, hp, hmem⟩
    · exact h.isAttached_iff.mpr ⟨n, hroot, .refl⟩
    · have hlink := (h.mem_children_iff p n).mp hmem
      rw [h.isAttached_of_parent hlink]
      exact ih p hlink hp

/-- The way up does not leave a set of nodes that has the parents of its nodes. -/
theorem not_under_of_closed (among : NodeId → Prop)
    (hclosed : ∀ a b, among a → t.Link a b → among b) (hp : among p) (hc : ¬ among c) :
    ¬ t.Under p c := by
  intro hup
  have hall : ∀ b, t.Under p b → among b := by
    intro b hb
    induction hb with
    | single hl => exact hclosed p _ hp hl
    | tail _ hl ih => exact hclosed _ _ ih hl
  exact hc (hall c hup)

/-- An attached node without a parent is the root. -/
theorem WellFormed.root_of_parent_none (h : t.WellFormed) (hn : t.isAttached n = true)
    (hp : t.parent n = none) : t.root = some n := by
  rwa [isAttached, h.summit_of_parent_none hp, beq_iff_eq] at hn

/-- What is below an attached node is attached. -/
theorem WellFormed.isAttached_of_atOrUnder (h : t.WellFormed) (hp : t.isAttached p = true)
    (hn : t.AtOrUnder n p) : t.isAttached n = true := by
  obtain ⟨r, hr, hup⟩ := h.isAttached_iff.mp hp
  exact h.isAttached_iff.mpr ⟨r, hr, hn.trans hup⟩

/-- What is above an attached node is attached. -/
theorem WellFormed.isAttached_above (h : t.WellFormed) (hn : t.isAttached n = true)
    (hp : t.AtOrUnder n p) : t.isAttached p = true :=
  h.mem_attached_iff.mp (h.mem_attached_of_atOrUnder (h.mem_attached_iff.mpr hn) hp)

/-- The way up from one node to another stays if every child on it stays in its list. -/
theorem WellFormed.atOrUnder_of_kept (ht : t.WellFormed) (hu : u.WellFormed)
    (hp : t.AtOrUnder n p)
    (hkept : ∀ a b, t.AtOrUnder n a → t.AtOrUnder b p → a ∈ t.children b → a ∈ u.children b) :
    u.AtOrUnder n p := by
  induction hp using Relation.ReflTransGen.head_induction_on with
  | refl => exact .refl
  | @head n m hl hm ih =>
    have hmem := hkept n m .refl hm ((ht.mem_children_iff m n).mpr hl)
    refine .head ((hu.mem_children_iff m n).mp hmem) (ih fun a b ha => ?_)
    exact hkept a b (.head hl ha)

/-- A node stays attached if every child on the way up from it stays in its list. -/
theorem WellFormed.isAttached_of_kept (ht : t.WellFormed) (hu : u.WellFormed)
    (hroot : u.root = t.root) (hn : t.isAttached n = true)
    (hkept : ∀ a b, t.AtOrUnder n a → a ∈ t.children b → a ∈ u.children b) :
    u.isAttached n = true := by
  obtain ⟨r, hr, hup⟩ := ht.isAttached_iff.mp hn
  exact hu.isAttached_iff.mpr ⟨r, hroot.trans hr,
    ht.atOrUnder_of_kept hu hup fun a b ha _ => hkept a b ha⟩

/-- A top of the forest that is not the root. -/
structure Loose (t : Tree) (n : NodeId) : Prop where
  known : n < t.nodes.size
  free : t.parent n = none
  not_root : t.root ≠ some n

theorem WellFormed.not_isAttached_of_loose (h : t.WellFormed) (hn : t.Loose n) :
    t.isAttached n = false := by
  rw [isAttached, h.summit_of_parent_none hn.free]
  exact beq_eq_false_iff_ne.mpr hn.not_root

/-- A loose node can move below any attached node. -/
theorem WellFormed.ready_of_isAttached (h : t.WellFormed) (hp : t.isAttached p = true)
    (hc : t.Loose c) : t.Ready p c := by
  have hnot : ¬ t.AtOrUnder p c := by
    intro hpc
    have hattached := h.isAttached_above hp hpc
    rw [h.not_isAttached_of_loose hc] at hattached
    exact absurd hattached Bool.false_ne_true
  refine ⟨hc.known, hc.free, hc.not_root, ?_, fun hpc => hnot hpc.to_reflTransGen⟩
  rintro rfl
  exact hnot .refl

theorem mustCopy_of_ready (hc : t.Ready p c) : t.mustCopy p c = false := by
  have habove : t.dominates c p = false := by
    refine Bool.eq_false_iff.mpr fun hd => hc.not_above ?_
    exact under_of_mem_walkUpTo (List.contains_iff_mem.mp hd)
  have hroot := hc.not_root
  have hne := hc.ne
  rw [mustCopy, habove, isRoot, hc.free]
  simp [hroot, hne]

theorem available_of_ready (hc : t.Ready p c) : t.available p c = (t, c) := by
  rw [available, mustCopy_of_ready hc]
  rfl

/-! ## Arenas that differ in their root and children -/

/-- The second tree has the nodes and labels of the first, with a given root and given lists of
children. -/
structure Rearranged (t u : Tree) (root : Option NodeId) (children : NodeId → List NodeId) :
    Prop where
  wellFormed : u.WellFormed
  size : u.nodes.size = t.nodes.size
  root : u.root = root
  label : ∀ n, u.label n = t.label n
  children : ∀ n, u.children n = children n

namespace Rearranged

variable {root root' : Option NodeId} {children children' : NodeId → List NodeId}

theorem trans (htu : Rearranged t u root children) (huv : Rearranged u v root' children') :
    Rearranged t v root' children' :=
  ⟨huv.wellFormed, huv.size.trans htu.size, huv.root,
    fun n => (huv.label n).trans (htu.label n), huv.children⟩

theorem mem_children_iff (h : Rearranged t u root children) :
    c ∈ children p ↔ u.parent c = some p := by
  rw [← h.children, h.wellFormed.mem_children_iff]

theorem of_eq (h : Rearranged t u root children) (hroot : root = root')
    (hchildren : ∀ n, children n = children' n) : Rearranged t u root' children' :=
  ⟨h.wellFormed, h.size, h.root.trans hroot, h.label,
    fun n => (h.children n).trans (hchildren n)⟩

/-- A node that no list of children has is a top. -/
theorem parent_eq_none (h : Rearranged t u root children) (hc : ∀ p, c ∉ children p) :
    u.parent c = none := by
  refine Option.eq_none_iff_forall_ne_some.mpr fun p hp => hc p ?_
  exact h.mem_children_iff.mpr hp

end Rearranged

/-! ## Single edits -/

theorem WellFormed.parent_eq_none_iff (h : t.WellFormed) :
    t.parent c = none ↔ ∀ p, c ∉ t.children p := by
  rw [Option.eq_none_iff_forall_ne_some]
  exact forall_congr' fun p => not_congr (h.mem_children_iff p c).symm

/-- Making a top the root. -/
theorem WellFormed.rearranged_setRoot (h : t.WellFormed) (hn : n < t.nodes.size)
    (hfree : t.parent n = none) : Rearranged t (t.setRoot (some n)) (some n) t.children := by
  have hnodes : (t.setRoot (some n)).nodes = t.nodes := by
    show (t.detach n).nodes = t.nodes
    rw [detach_of_parent_none hfree]
    split <;> rfl
  have hknown : ∀ r, some n = some r → r < t.nodes.size := fun r hr => Option.some.inj hr ▸ hn
  refine ⟨h.setRoot hknown, size_setRoot .., rfl, fun m => ?_, fun m => ?_⟩
  · rw [label_eq, label_eq, hnodes]
  · rw [children_eq, children_eq, hnodes]

/-- Taking a node that is not the root out of the list that has it. -/
theorem WellFormed.rearranged_detach (h : t.WellFormed) (hroot : t.root ≠ some n) :
    Rearranged t (t.detach n) t.root fun q => (t.children q).filter (· != n) := by
  cases hp : t.parent n with
  | some p =>
    refine ⟨h.detach n, size_detach .., ?_, fun m => ?_, fun q => ?_⟩
    all_goals rw [detach_of_parent hp]
    · rw [root_touch]
      rfl
    · rw [label_touch, Tree.unlink, label_setParent, label_setChildren]
    · rw [children_touch, children_unlink]
      split
      · rename_i hq
        rw [hq]
      · rename_i hq
        -- only the parent lists the node
        refine (List.filter_eq_self.mpr fun c hc => bne_iff_ne.mpr fun hcn => hq ?_).symm
        have hlink := (h.mem_children_iff q c).mp hc
        rw [hcn, hp] at hlink
        exact Option.some.inj hlink
  | none =>
    have hsame : t.detach n = t := by
      rw [detach_of_parent_none hp, isRoot, if_neg (by simpa using hroot)]
    refine ⟨h.detach n, size_detach .., by rw [hsame], fun m => by rw [hsame], fun q => ?_⟩
    rw [hsame]
    refine (List.filter_eq_self.mpr fun c hc => bne_iff_ne.mpr fun hcn => ?_).symm
    exact h.parent_eq_none_iff.mp hp q (hcn ▸ hc)

/-- Inserting a node that can move. -/
theorem WellFormed.rearranged_insertChild (h : t.WellFormed) (hp : p < t.nodes.size)
    (hc : t.Ready p c) (i : Nat) :
    Rearranged t (t.insertChild p i c).1 t.root
      (Function.update t.children p
        ((t.children p).insertIdx (min i (t.children p).length) c)) := by
  refine ⟨h.insertChild i hp hc.known, ?_, ?_, fun n => ?_, fun n => ?_⟩
  all_goals rw [insertChild_fst, available_of_ready hc]
  · rw [nodes_touch, size_link]
  · rw [root_touch]
    rfl
  · rw [label_touch, Tree.link, label_setParent, label_setChildren]
  · rw [children_touch, children_link n hp, Function.update_apply]
    exact if_congr eq_comm rfl rfl

/-! ### Replacing children -/

/-- Placing nodes that can move only gives them their parent. -/
theorem placeAll_of_ready (p : NodeId) : ∀ (cs placed : List NodeId) (t : Tree),
    (∀ c ∈ cs, t.Ready p c) → (placed ++ cs).Nodup →
    (t.placeAll p placed cs).2 = placed ++ cs ∧
      (t.placeAll p placed cs).1.nodes.size = t.nodes.size ∧
      ∀ n, (t.placeAll p placed cs).1.label n = t.label n ∧
        (t.placeAll p placed cs).1.children n = t.children n
  | [], placed, t, _, _ => ⟨(List.append_nil placed).symm, rfl, fun _ => ⟨rfl, rfl⟩⟩
  | c :: cs, placed, t, hready, hnodup => by
    have hc := hready c (List.mem_cons_self ..)
    have hplaced : placed.contains c = false := by
      refine Bool.eq_false_iff.mpr fun hmem => ?_
      exact (List.nodup_append.mp hnodup).2.2 c (List.contains_iff_mem.mp hmem) c
        (List.mem_cons_self ..) rfl
    have hplace : t.place p placed c = (t, c) := by
      rw [place, hplaced, if_neg Bool.false_ne_true, available_of_ready hc]
    rw [placeAll_cons, hplace]
    -- the nodes still to come are not `c`, and placing `c` puts nothing above `p`
    have hrest : ∀ x ∈ cs, (t.setParent c (some p)).Ready p x := by
      intro x hx
      have hxt := hready x (List.mem_cons_of_mem c hx)
      have hne : c ≠ x := fun hcx =>
        (List.nodup_cons.mp (List.nodup_append.mp hnodup).2.1).1 (hcx ▸ hx)
      refine ⟨?_, ?_, hxt.not_root, hxt.ne, ?_⟩
      · rw [size_setParent]
        exact hxt.known
      · rw [parent_setParent, if_neg fun heq => hne heq.1]
        exact hxt.free
      · exact fun hup => hxt.not_above (under_of_setParent hc.ne hc.not_above hup)
    obtain ⟨hlist, hsize, hreads⟩ := placeAll_of_ready p cs (placed ++ [c]) _ hrest
      (by rwa [List.append_assoc])
    refine ⟨by rw [hlist, List.append_assoc]; rfl, by rw [hsize, size_setParent], fun n => ?_⟩
    rw [(hreads n).1, (hreads n).2, label_setParent, children_setParent]
    exact ⟨rfl, rfl⟩

theorem under_of_releaseChildren {q a b : NodeId} (hab : (t.releaseChildren q).Under a b) :
    t.Under a b := by
  refine Relation.TransGen.mono (fun x y hl => ?_) a b hab
  rw [Link, parent_releaseChildren] at hl
  split at hl
  · exact absurd hl (by simp)
  · exact hl

/-- The children of a node can move below it again when they have been released, and so can nodes
that could before. -/
theorem WellFormed.ready_releaseChildren (h : t.WellFormed)
    (hc : c ∈ t.children p ∨ t.Ready p c) : (t.releaseChildren p).Ready p c := by
  rcases hc with hc | hc
  · have hlink := (h.mem_children_iff p c).mp hc
    refine ⟨?_, ?_, ?_, ?_, fun hup => ?_⟩
    · rw [size_releaseChildren]
      exact h.child_lt_size hc
    · rw [parent_releaseChildren, if_pos hc]
    · rw [root_releaseChildren]
      intro hr
      rw [h.root_top c hr] at hlink
      exact absurd hlink (by simp)
    · rintro rfl
      exact h.acyclic c (.single hlink)
    · exact h.acyclic p (.tail (under_of_releaseChildren hup) hlink)
  · refine ⟨?_, ?_, ?_, hc.ne, fun hup => hc.not_above (under_of_releaseChildren hup)⟩
    · rw [size_releaseChildren]
      exact hc.known
    · rw [parent_releaseChildren, hc.free]
      exact ite_self none
    · rw [root_releaseChildren]
      exact hc.not_root

/-- **Replacing the children of a node by nodes that can move** changes its list of children and no
other. -/
theorem WellFormed.rearranged_replaceChildren (h : t.WellFormed) (hp : p < t.nodes.size)
    (hnodup : cs.Nodup) (hcs : ∀ c ∈ cs, c ∈ t.children p ∨ t.Ready p c) :
    Rearranged t (t.replaceChildren p cs).1 t.root (Function.update t.children p cs) := by
  have hknown : ∀ c ∈ cs, c < t.nodes.size := by
    intro c hc
    rcases hcs c hc with hc | hc
    · exact h.child_lt_size hc
    · exact hc.known
  obtain ⟨hlist, hsize, hreads⟩ := placeAll_of_ready p cs [] (t.releaseChildren p)
    (fun c hc => h.ready_releaseChildren (hcs c hc)) hnodup
  rw [List.nil_append] at hlist
  refine ⟨h.replaceChildren hp hknown, ?_, root_replaceChildren t p cs, fun n => ?_, fun n => ?_⟩
  all_goals rw [replaceChildren_fst, hlist]
  · rw [nodes_touch, size_setChildren, hsize, size_releaseChildren]
  · rw [label_touch, label_setChildren, (hreads n).1, label_releaseChildren]
  · rw [children_touch, children_setChildren, hsize, size_releaseChildren, (hreads n).2,
      children_releaseChildren, Function.update_apply]
    by_cases hn : p = n
    · simp [hn, hn ▸ hp]
    · simp [hn, Ne.symm hn]

/-- Children that have been taken from a node are loose. -/
theorem WellFormed.loose_of_taken (h : t.WellFormed)
    (hu : Rearranged t u t.root (Function.update t.children p [])) (hc : c ∈ t.children p) :
    u.Loose c := by
  have hlink := (h.mem_children_iff p c).mp hc
  refine ⟨hu.size ▸ h.child_lt_size hc, hu.parent_eq_none fun q hmem => ?_, ?_⟩
  · rw [Function.update_apply] at hmem
    split at hmem
    · exact absurd hmem (by simp)
    · rename_i hq
      exact hq (Option.some.inj (((h.mem_children_iff q c).mp hmem).symm.trans hlink))
  · rw [hu.root]
    intro hr
    rw [h.root_top c hr] at hlink
    exact absurd hlink (by simp)

/-- **Above a node whose children are replaced** nothing changes. -/
theorem WellFormed.above_replaceChildren (h : t.WellFormed) (hp : p < t.nodes.size)
    (hnodup : cs.Nodup) (hcs : ∀ c ∈ cs, c ∈ t.children p ∨ t.Ready p c)
    (hn : t.AtOrUnder p n) :
    (t.replaceChildren p cs).1.isAttached n = t.isAttached n ∧
      (t.replaceChildren p cs).1.AtOrUnder p n := by
  have hu := h.rearranged_replaceChildren hp hnodup hcs
  have hparent : ∀ m, t.AtOrUnder p m → (t.replaceChildren p cs).1.parent m = t.parent m := by
    intro m hm
    have hnot : m ∉ cs := by
      intro hmem
      rcases hcs m hmem with hchild | hready
      · exact h.not_mem_children_of_atOrUnder hm hchild
      · exact ne_of_ready hready hm rfl
    refine Option.ext fun q => ?_
    rw [← hu.mem_children_iff, ← h.mem_children_iff, Function.update_apply]
    by_cases hq : q = p
    · rw [if_pos hq, hq]
      exact ⟨fun hmem => absurd hmem hnot,
        fun hmem => absurd hmem (h.not_mem_children_of_atOrUnder hm)⟩
    · rw [if_neg hq]
  refine ⟨h.isAttached_congr hu.wellFormed hu.root fun m hm => hparent m (hn.trans hm), ?_⟩
  refine h.atOrUnder_of_kept hu.wellFormed hn fun a b ha _ hmem => ?_
  rw [hu.wellFormed.mem_children_iff, hparent a ha]
  exact (h.mem_children_iff b a).mp hmem

/-! ## What stays below a node -/

/-- Below a node is the same as long as the children of all nodes there are. -/
theorem WellFormed.below_congr (ht : t.WellFormed) (hu : u.WellFormed)
    (hchildren : ∀ m, t.AtOrUnder m n → u.children m = t.children m) :
    u.below n = t.below n := by
  induction n using ht.down_induction with
  | step n ih =>
    rw [hu.below_eq, ht.below_eq, hchildren n .refl]
    congr 1
    refine List.map_congr_left fun c hc => ih c hc fun m hm => hchildren m ?_
    exact .tail hm ((ht.mem_children_iff n c).mp hc)

end Constituency.Tree
