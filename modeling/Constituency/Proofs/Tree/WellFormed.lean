import Mathlib.Logic.Relation
import Mathlib.Data.List.Perm.Subperm
import Constituency.Proofs.Tree.Links

/-!
# Well-formed arenas, and the way up in them

An arena stores every edge twice, as a parent link and as an entry in a list of
children. `WellFormed` says that the two agree, that no node is its own ancestor
and that the root is the top of its tree.

The walks of `Tree.Basic` are bounded by the size of the arena. In a well-formed
arena the bound is never felt: the nodes on the way up are all different, and
together with the node the walk starts from there are no more of them than the
arena has. So the walk up satisfies the equation of an unbounded one
(`ancestors_eq`), and what it lists is the transitive closure of the parent
links.
-/

namespace Constituency.Tree

/-- `b` is the parent of `a`. -/
abbrev Link (t : Tree) (a b : NodeId) : Prop := t.parent a = some b

/-- `b` is a proper ancestor of `a`. -/
abbrev Under (t : Tree) : NodeId → NodeId → Prop := Relation.TransGen t.Link

/-- `b` is `a` or an ancestor of it. -/
abbrev AtOrUnder (t : Tree) : NodeId → NodeId → Prop := Relation.ReflTransGen t.Link

/-- The links of an arena make it a forest, and the root is the top of one of its trees. -/
structure WellFormed (t : Tree) : Prop where
  root_known : ∀ r, t.root = some r → r < t.nodes.size
  root_top : ∀ r, t.root = some r → t.parent r = none
  /-- No node is listed twice. -/
  children_nodup : ∀ p, (t.children p).Nodup
  /-- The children of a node are those that name it as their parent. -/
  mem_children_iff : ∀ p c, c ∈ t.children p ↔ t.parent c = some p
  acyclic : ∀ n, ¬ t.Under n n

/-- Two trees with the same root and the same links in arenas of one size. -/
structure SameLinks (t u : Tree) : Prop where
  size : t.nodes.size = u.nodes.size
  root : t.root = u.root
  parent : ∀ n, t.parent n = u.parent n
  children : ∀ n, t.children n = u.children n

theorem WellFormed.of_sameLinks {t u : Tree} (h : t.WellFormed) (hs : SameLinks t u) :
    u.WellFormed := by
  have hlink : u.Link = t.Link := by
    funext a b
    exact congrArg (· = some b) (hs.parent a).symm
  refine ⟨?_, ?_, ?_, ?_, ?_⟩
  · intro r hr
    rw [← hs.size]
    exact h.root_known r (hs.root.trans hr)
  · intro r hr
    rw [← hs.parent]
    exact h.root_top r (hs.root.trans hr)
  · intro p
    rw [← hs.children]
    exact h.children_nodup p
  · intro p c
    rw [← hs.children, ← hs.parent]
    exact h.mem_children_iff p c
  · intro n
    rw [Under, hlink]
    exact h.acyclic n

namespace WellFormed

variable {t : Tree}

/-- A node that is a parent is in the arena. -/
theorem parent_lt_size (h : t.WellFormed) {n p : NodeId} (hp : t.parent n = some p) :
    p < t.nodes.size :=
  lt_size_of_mem_children ((h.mem_children_iff p n).mpr hp)

theorem child_lt_size (h : t.WellFormed) {p c : NodeId} (hc : c ∈ t.children p) :
    c < t.nodes.size :=
  lt_size_of_parent ((h.mem_children_iff p c).mp hc)

/-- A child of a node is not on the way up from it. -/
theorem not_mem_children_of_atOrUnder (h : t.WellFormed) {p m : NodeId} (hm : t.AtOrUnder p m) :
    m ∉ t.children p := fun hmem =>
  h.acyclic m (Relation.TransGen.head' ((h.mem_children_iff p m).mp hmem) hm)

theorem under_lt_size (h : t.WellFormed) {a b : NodeId} (hab : t.Under a b) :
    b < t.nodes.size := by
  obtain ⟨c, _, hc⟩ := Relation.TransGen.tail'_iff.mp hab
  exact h.parent_lt_size hc

end WellFormed

/-! ## The way up -/

theorem walkUpTo_of_short {next : NodeId → Option NodeId} :
    ∀ {k : Nat} {n : NodeId}, (walkUpTo next k n).length < k →
      walkUpTo next (k + 1) n = walkUpTo next k n
  | 0, _, h => absurd h (Nat.not_lt_zero _)
  | k + 1, n, h => by
    rw [walkUpTo, walkUpTo]
    cases hn : next n with
    | none => rfl
    | some x =>
      rw [walkUpTo, hn, List.length_cons] at h
      dsimp only
      rw [walkUpTo_of_short (Nat.lt_of_succ_lt_succ h)]

theorem under_of_mem_walkUpTo {t : Tree} :
    ∀ {k : Nat} {n a : NodeId}, a ∈ walkUpTo t.parent k n → t.Under n a
  | 0, _, _, h => absurd h (by simp [walkUpTo])
  | k + 1, n, a, h => by
    rw [walkUpTo] at h
    cases hn : t.parent n with
    | none => simp [hn] at h
    | some p =>
      simp only [hn] at h
      rcases List.mem_cons.mp h with rfl | h
      · exact .single hn
      · exact .head hn (under_of_mem_walkUpTo h)

namespace WellFormed

variable {t : Tree}

theorem walkUpTo_nodup (h : t.WellFormed) :
    ∀ (k : Nat) (n : NodeId), (n :: walkUpTo t.parent k n).Nodup
  | 0, n => by simp [walkUpTo]
  | k + 1, n => by
    refine List.nodup_cons.mpr ⟨fun hn => h.acyclic n (under_of_mem_walkUpTo hn), ?_⟩
    rw [walkUpTo]
    cases t.parent n with
    | none => exact List.nodup_nil
    | some p => exact h.walkUpTo_nodup k p

/-- There are fewer ancestors than nodes. -/
theorem length_walkUpTo_lt (h : t.WellFormed) (k : Nat) {n : NodeId} (hn : n < t.nodes.size) :
    (walkUpTo t.parent k n).length < t.nodes.size := by
  -- numbers of nodes, all different
  have hsub : n :: walkUpTo t.parent k n ⊆ List.range t.nodes.size := by
    intro a ha
    rw [List.mem_range]
    rcases List.mem_cons.mp ha with rfl | ha
    · exact hn
    · exact h.under_lt_size (under_of_mem_walkUpTo ha)
  have hle := ((h.walkUpTo_nodup k n).subperm hsub).length_le
  rwa [List.length_cons, List.length_range] at hle

/-- **The walk up is not cut short**: it goes on to the parent, and from there in the same way. -/
theorem ancestors_eq (h : t.WellFormed) (n : NodeId) :
    t.ancestors n = match t.parent n with
      | none => []
      | some p => p :: t.ancestors p := by
  unfold ancestors walk
  cases hp : t.parent n with
  | none =>
    cases t.nodes.size with
    | zero => rfl
    | succ k => rw [walkUpTo, hp]
  | some p =>
    -- the walk from `n` takes fewer steps than it may, so the one from `p` does not need the last
    have hlt := h.length_walkUpTo_lt t.nodes.size (lt_size_of_parent hp)
    obtain ⟨k, hk⟩ : ∃ k, t.nodes.size = k + 1 :=
      ⟨t.nodes.size - 1, by have := lt_size_of_parent hp; omega⟩
    rw [hk] at hlt ⊢
    rw [walkUpTo, hp] at hlt ⊢
    dsimp only at hlt ⊢
    rw [walkUpTo_of_short (Nat.lt_of_succ_lt_succ hlt)]

theorem ancestors_of_parent (h : t.WellFormed) {n p : NodeId} (hp : t.parent n = some p) :
    t.ancestors n = p :: t.ancestors p := by
  rw [h.ancestors_eq, hp]

theorem ancestors_of_parent_none (h : t.WellFormed) {n : NodeId} (hp : t.parent n = none) :
    t.ancestors n = [] := by
  rw [h.ancestors_eq, hp]

/-- What holds of a node if it holds of its parent holds of all nodes. -/
theorem up_induction (h : t.WellFormed) {motive : NodeId → Prop}
    (step : ∀ n, (∀ p, t.parent n = some p → motive p) → motive n) (n : NodeId) : motive n := by
  refine (InvImage.wf (fun n => (t.ancestors n).length) Nat.lt_wfRel.wf).induction n fun n ih => ?_
  refine step n fun p hp => ih p ?_
  show (t.ancestors p).length < (t.ancestors n).length
  rw [h.ancestors_of_parent hp]
  exact Nat.lt_succ_self _

/-- The ancestors that the walk lists are all there are. -/
theorem mem_ancestors_iff (h : t.WellFormed) {n a : NodeId} : a ∈ t.ancestors n ↔ t.Under n a := by
  refine ⟨under_of_mem_walkUpTo, ?_⟩
  intro hu
  induction hu using Relation.TransGen.head_induction_on with
  | single hp =>
    rw [h.ancestors_of_parent hp]
    exact List.mem_cons_self ..
  | head hp _ ih =>
    rw [h.ancestors_of_parent hp]
    exact List.mem_cons_of_mem _ ih

theorem dominates_iff (h : t.WellFormed) {a b : NodeId} : t.dominates a b = true ↔ t.Under b a := by
  rw [dominates, List.contains_iff_mem, h.mem_ancestors_iff]

/-! ## The top -/

theorem summit_of_parent (h : t.WellFormed) {n p : NodeId} (hp : t.parent n = some p) :
    t.summit n = t.summit p := by
  rw [summit, summit, h.ancestors_of_parent hp, List.getLastD_cons]

theorem summit_of_parent_none (h : t.WellFormed) {n : NodeId} (hp : t.parent n = none) :
    t.summit n = n := by
  rw [summit, h.ancestors_of_parent_none hp]
  rfl

/-- **The walk up ends**, at a node without a parent. -/
theorem atOrUnder_summit (h : t.WellFormed) (n : NodeId) :
    t.AtOrUnder n (t.summit n) ∧ t.parent (t.summit n) = none := by
  induction n using h.up_induction with
  | step n ih =>
    cases hp : t.parent n with
    | none =>
      rw [h.summit_of_parent_none hp]
      exact ⟨.refl, hp⟩
    | some p =>
      rw [h.summit_of_parent hp]
      obtain ⟨hup, htop⟩ := ih p hp
      exact ⟨.head hp hup, htop⟩

/-- A top that is reached from a node is the top that its walk ends at. -/
theorem summit_eq (h : t.WellFormed) {n r : NodeId} (hr : t.parent r = none)
    (hn : t.AtOrUnder n r) : t.summit n = r := by
  induction hn using Relation.ReflTransGen.head_induction_on with
  | refl => exact h.summit_of_parent_none hr
  | head hp _ ih => rw [h.summit_of_parent hp, ih]

theorem isAttached_iff (h : t.WellFormed) {n : NodeId} :
    t.isAttached n = true ↔ ∃ r, t.root = some r ∧ t.AtOrUnder n r := by
  rw [isAttached, beq_iff_eq]
  constructor
  · intro hroot
    exact ⟨t.summit n, hroot, (h.atOrUnder_summit n).1⟩
  · rintro ⟨r, hroot, hup⟩
    rw [hroot, h.summit_eq (h.root_top r hroot) hup]

theorem isAttached_of_parent (h : t.WellFormed) {n p : NodeId} (hp : t.parent n = some p) :
    t.isAttached n = t.isAttached p := by
  rw [isAttached, isAttached, h.summit_of_parent hp]

theorem lt_size_of_isAttached (h : t.WellFormed) {n : NodeId} (hn : t.isAttached n = true) :
    n < t.nodes.size := by
  obtain ⟨r, hr, hup⟩ := h.isAttached_iff.mp hn
  rcases Relation.ReflTransGen.cases_head hup with rfl | ⟨p, hp, _⟩
  · exact h.root_known _ hr
  · exact lt_size_of_parent hp

end WellFormed

end Constituency.Tree
