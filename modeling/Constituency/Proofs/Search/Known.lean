import Constituency.Proofs.Search.Matches

/-!
# Searches stay inside the arena

An enumeration keeps node numbers from one match to the next: the roots it has
still to try, the goals and bindings of its machine, the nodes in its index. The
tree may change in between, but no change takes nodes out of the arena, so what
was known stays known (`mono`).

A search comes to new nodes over relations, and every candidate is reached from
a node of the arena over links, or stands in the index. Hence a step of the
machine brings in no unknown node, and neither does a match.
-/

namespace Constituency

open Constituency.Tree

/-- All numbers of a list are those of nodes in an arena of a given size. -/
def AllKnown (n : Nat) (ids : List NodeId) : Prop := ∀ x ∈ ids, x < n

namespace AllKnown

variable {n : Nat} {ids : List NodeId}

theorem mono {m : Nat} (h : AllKnown n ids) (hnm : n ≤ m) : AllKnown m ids :=
  fun x hx => Nat.lt_of_lt_of_le (h x hx) hnm

theorem sublist {sub : List NodeId} (h : AllKnown n ids) (hsub : ∀ x ∈ sub, x ∈ ids) :
    AllKnown n sub :=
  fun x hx => h x (hsub x hx)

theorem of_option {o : Option NodeId} (h : ∀ x, o = some x → x < n) : AllKnown n o.toList :=
  fun x hx => h x (Option.mem_toList.mp hx)

theorem of_map {α : Type} {o : Option α} {f : α → List NodeId}
    (h : ∀ a, o = some a → AllKnown n (f a)) : AllKnown n ((o.map f).getD []) := by
  cases o with
  | none => exact fun x hx => absurd hx (by simp)
  | some a => exact h a rfl

theorem head? (h : AllKnown n ids) : AllKnown n ids.head?.toList :=
  of_option fun _ hx => h _ (List.mem_of_head? hx)

theorem getLast? (h : AllKnown n ids) : AllKnown n ids.getLast?.toList :=
  of_option fun _ hx => h _ (List.mem_of_getLast? hx)

end AllKnown

/-- Where every step of a walk leads to a known node, the walk does. -/
theorem walkUpTo_known {n : Nat} {next : NodeId → Option NodeId}
    (hnext : ∀ x y, next x = some y → y < n) : ∀ (k : Nat) (a : NodeId),
    AllKnown n (walkUpTo next k a)
  | 0, _ => fun x hx => absurd hx (by simp [walkUpTo])
  | k + 1, a => by
    intro x hx
    rw [walkUpTo] at hx
    cases hn : next a with
    | none => simp [hn] at hx
    | some y =>
      simp only [hn] at hx
      rcases List.mem_cons.mp hx with rfl | hx
      · exact hnext a x hn
      · exact walkUpTo_known hnext k y x hx

namespace Tree.WellFormed

variable {t : Tree} (h : t.WellFormed)

include h

/-! ## Nodes reached over links -/

theorem children_known (a : NodeId) : AllKnown t.nodes.size (t.children a) :=
  fun _ hx => h.child_lt_size hx

theorem parentIf_known {keep : NodeId → NodeId → Bool} {a x : NodeId}
    (hx : t.parentIf keep a = some x) : x < t.nodes.size :=
  h.parent_lt_size (Option.filter_eq_some_iff.mp hx).1

theorem onlyChild_known {a x : NodeId} (hx : t.onlyChild? a = some x) : x < t.nodes.size := by
  unfold onlyChild? at hx
  split at hx
  · rename_i c hc
    obtain rfl := Option.some.inj hx
    exact h.children_known a c (by rw [hc]; exact List.mem_singleton_self c)
  · exact absurd hx (by simp)

theorem nthOf_known {a x : NodeId} {n : Int} (hx : nthOf (t.children a) n = some x) :
    x < t.nodes.size := by
  unfold nthOf at hx
  split at hx
  · exact h.children_known a x (List.mem_of_getElem? hx)
  · split at hx
    · exact h.children_known a x (List.mem_of_getElem? hx)
    · exact absurd hx (by simp)

theorem sisters_known {a : NodeId} {around : List NodeId × List NodeId}
    (hs : t.sisters a = some around) :
    AllKnown t.nodes.size around.1 ∧ AllKnown t.nodes.size around.2 := by
  unfold sisters at hs
  obtain ⟨p, _, hs⟩ := Option.bind_eq_some_iff.mp hs
  obtain ⟨i, _, hs⟩ := Option.bind_eq_some_iff.mp hs
  obtain rfl := Option.some.inj hs
  exact ⟨(h.children_known p).sublist fun _ => List.mem_of_mem_take,
    (h.children_known p).sublist fun _ => List.mem_of_mem_drop⟩

theorem ancestors_known (a : NodeId) : AllKnown t.nodes.size (t.ancestors a) :=
  walkUpTo_known (fun _ _ => h.parent_lt_size) _ a

theorem preorder_known {a : NodeId} (ha : a < t.nodes.size) :
    AllKnown t.nodes.size (t.preorder a) := by
  intro x hx
  rcases Relation.reflTransGen_iff_eq_or_transGen.mp (h.mem_preorder_iff.mp hx) with rfl | hu
  · exact ha
  · obtain ⟨p, hp, _⟩ := Relation.TransGen.head'_iff.mp hu
    exact lt_size_of_parent hp

theorem belowThrough_known (p : NodeId → Bool) : ∀ (k : Nat) {a : NodeId}, a < t.nodes.size →
    AllKnown t.nodes.size (t.belowThrough p k a)
  | 0, a, ha => fun x hx => by
    obtain rfl := List.mem_singleton.mp hx
    exact ha
  | k + 1, a, ha => by
    intro x hx
    rw [belowThrough] at hx
    rcases List.mem_cons.mp hx with rfl | hx
    · exact ha
    · split at hx
      · obtain ⟨c, hc, hx⟩ := List.mem_flatMap.mp hx
        exact belowThrough_known p k (h.child_lt_size hc) x hx
      · exact absurd hx (by simp)

end Tree.WellFormed

theorem mem_of_mem_takeThrough {α : Type} {p : α → Bool} {x : α} :
    ∀ {as : List α}, x ∈ takeThrough p as → x ∈ as
  | [], h => absurd h (by simp [takeThrough])
  | a :: as, h => by
    rw [takeThrough] at h
    split at h
    · rcases List.mem_cons.mp h with rfl | h
      · exact List.mem_cons_self ..
      · exact List.mem_cons_of_mem a (mem_of_mem_takeThrough h)
    · exact List.mem_cons.mpr (.inl (List.mem_singleton.mp h))

/-- A well-formed tree with an index of nodes that it has. -/
structure Scene.Known (s : Scene) : Prop where
  wellFormed : s.tree.WellFormed
  index : AllKnown s.tree.nodes.size s.index.preorder

namespace Relation

theorem bySpan_known {n : Nat} {i : Index} (hi : AllKnown n i.preorder) (a : NodeId)
    (holds : Span → Span → Bool) : AllKnown n (bySpan i a holds) := by
  unfold bySpan
  split
  · exact fun x hx => absurd hx (by simp)
  · exact hi.sublist fun _ hx => (List.mem_filter.mp hx).1

/-- **Every candidate of a relation is in the arena.** -/
theorem candidates_known {s : Scene} (hs : s.Known) (b : Bindings) {a : NodeId}
    (ha : a < s.tree.nodes.size) (r : Relation) :
    AllKnown s.tree.nodes.size (r.candidates s b a) := by
  have h := hs.wellFormed
  have hparentIf := fun keep => AllKnown.of_option fun x (hx : s.tree.parentIf keep a = some x) =>
    h.parentIf_known hx
  have hwalk : ∀ keep, AllKnown s.tree.nodes.size (s.tree.walk (s.tree.parentIf keep) a) :=
    fun keep => walkUpTo_known (fun _ _ => h.parentIf_known) _ a
  cases r with
  | dominates => exact (h.preorder_known ha).sublist fun _ => List.mem_of_mem_drop
  | dominatedBy => exact h.ancestors_known a
  | parentOf => exact h.children_known a
  | childOf => exact .of_option fun _ => h.parent_lt_size
  | firstChild => exact (h.children_known a).head?
  | lastChild => exact (h.children_known a).getLast?
  | onlyChild => exact .of_option fun _ => h.onlyChild_known
  | nthChild n => exact .of_option fun _ => h.nthOf_known
  | firstChildOf => exact hparentIf _
  | lastChildOf => exact hparentIf _
  | onlyChildOf => exact hparentIf _
  | nthChildOf n => exact hparentIf _
  | leftmostDescendant =>
    exact walkUpTo_known (fun x _ hy => h.children_known x _ (List.mem_of_head? hy)) _ a
  | rightmostDescendant =>
    exact walkUpTo_known (fun x _ hy => h.children_known x _ (List.mem_of_getLast? hy)) _ a
  | leftmostDescendantOf => exact hwalk _
  | rightmostDescendantOf => exact hwalk _
  | unaryDominates => exact walkUpTo_known (fun _ _ => h.onlyChild_known) _ a
  | unaryDominatedBy => exact hwalk _
  | dominatesVia d =>
    intro x hx
    obtain ⟨c, hc, hx⟩ := List.mem_flatMap.mp hx
    exact h.belowThrough_known _ _ (h.child_lt_size hc) x hx
  | dominatedByVia d => exact (h.ancestors_known a).sublist fun _ => mem_of_mem_takeThrough
  | sister =>
    intro x hx
    simp only [candidates] at hx
    split at hx
    · rename_i p _
      split at hx
      · exact h.children_known p x (List.mem_filter.mp hx).1
      · exact absurd hx (by simp)
    · exact absurd hx (by simp)
  | leftSisterOf => exact .of_map fun _ hsis => (h.sisters_known hsis).2
  | rightSisterOf => exact .of_map fun _ hsis => (h.sisters_known hsis).1
  | immediateLeftSisterOf =>
    refine .of_option ?_
    intro x hx
    obtain ⟨around, hsis, hx⟩ := Option.bind_eq_some_iff.mp hx
    exact (h.sisters_known hsis).2 x (List.mem_of_head? hx)
  | immediateRightSisterOf =>
    refine .of_option ?_
    intro x hx
    obtain ⟨around, hsis, hx⟩ := Option.bind_eq_some_iff.mp hx
    exact (h.sisters_known hsis).1 x (List.mem_of_getLast? hx)
  | precedes => exact bySpan_known hs.index a _
  | immediatelyPrecedes => exact bySpan_known hs.index a _
  | follows => exact bySpan_known hs.index a _
  | immediatelyFollows => exact bySpan_known hs.index a _
  | equals => exact fun x hx => List.mem_singleton.mp hx ▸ ha

end Relation

/-! ## Bindings, goals and machines -/

/-- Bindings to nodes of an arena of a given size. -/
def Bindings.Known (n : Nat) (b : Bindings) : Prop := ∀ x, some x ∈ b → x < n

/-- The node that a goal is about. -/
def Goal.node : Goal → NodeId
  | .fits id _ => id
  | .meets id _ => id

/-- A choice among alternatives about nodes of an arena of a given size. -/
structure Choice.Known (n : Nat) (c : Choice) : Prop where
  goals : ∀ g ∈ c.goals, g.node < n
  bindings : c.bindings.Known n
  alternatives : ∀ g ∈ c.alternatives, g.node < n

/-- A machine that has to do with nodes of an arena of a given size. -/
structure Machine.Known (n : Nat) (m : Machine) : Prop where
  goals : ∀ g ∈ m.goals, g.node < n
  bindings : m.bindings.Known n
  choices : ∀ c ∈ m.choices, c.Known n

namespace Bindings

theorem known_unbound (n count : Nat) : Known n (unbound count) := by
  intro x hx
  exact absurd (List.eq_of_mem_replicate hx) (by simp)

theorem Known.mono {n m : Nat} {b : Bindings} (h : b.Known n) (hnm : n ≤ m) : b.Known m :=
  fun x hx => Nat.lt_of_lt_of_le (h x hx) hnm

theorem all_bind {P : NodeId → Prop} {b : Bindings} (h : ∀ x, some x ∈ b → P x) (v : VarId)
    {id : NodeId} (hid : P id) : ∀ x, some x ∈ b.bind v id → P x := by
  intro x hx
  rcases List.mem_or_eq_of_mem_set hx with hx | hx
  · exact h x hx
  · exact Option.some.inj hx ▸ hid

end Bindings

/-- What is true of a node and of all nodes bound before is true of those bound after entering
it. -/
theorem Scene.enter_all {P : NodeId → Prop} {s : Scene} {d : Description} {v : Option VarId}
    {id : NodeId} {b b' : Bindings} (hb : ∀ x, some x ∈ b → P x) (hid : P id)
    (h : s.enter d v id b = some b') : ∀ x, some x ∈ b' → P x := by
  have hreference : ∀ x, some x ∈ d.bindReference b id → P x := by
    unfold Description.bindReference
    split
    · split
      · exact Bindings.all_bind hb _ hid
      · exact hb
    · exact hb
  unfold Scene.enter at h
  split at h
  · unfold Bindings.capture at h
    split at h
    · exact Option.some.inj h ▸ hreference
    · split at h
      · exact Option.some.inj h ▸ Bindings.all_bind hreference _ hid
      · exact absurd h (by simp)
  · exact absurd h (by simp)

namespace Machine

variable {n : Nat} {s : Scene}

theorem Known.mono {k : Nat} {m : Machine} (h : m.Known n) (hnk : n ≤ k) : m.Known k := by
  refine ⟨fun g hg => Nat.lt_of_lt_of_le (h.goals g hg) hnk, h.bindings.mono hnk, ?_⟩
  intro c hmem
  have hc := h.choices c hmem
  exact ⟨fun g hg => Nat.lt_of_lt_of_le (hc.goals g hg) hnk, hc.bindings.mono hnk,
    fun g hg => Nat.lt_of_lt_of_le (hc.alternatives g hg) hnk⟩

theorem start_known (p : NodePattern) {id : NodeId} (count : Nat) (hid : id < n) :
    (start p id count).Known n :=
  ⟨fun g hg => by rw [List.mem_singleton.mp hg]; exact hid, Bindings.known_unbound n count,
    fun c hc => absurd hc (by simp [start])⟩

/-- Putting goals on known nodes in front of those of a machine. -/
theorem Known.withGoals {m : Machine} {gs : List Goal} (h : m.Known n)
    (hgs : ∀ g ∈ gs, g.node < n) : Known n { m with goals := gs ++ m.goals } :=
  ⟨fun g hg => (List.mem_append.mp hg).elim (hgs g) (h.goals g), h.bindings, h.choices⟩

theorem branch_known {m m' : Machine} {gs : List Goal} (h : m.Known n)
    (hgs : ∀ g ∈ gs, g.node < n) (hm : m.branch gs = some m') : m'.Known n := by
  unfold branch at hm
  split at hm
  · exact absurd hm (by simp)
  · rename_i g
    obtain rfl := Option.some.inj hm
    have hg : ∀ k ∈ [g], k.node < n := hgs
    exact h.withGoals hg
  · rename_i g gs _
    obtain rfl := Option.some.inj hm
    have hg : ∀ k ∈ [g], k.node < n := fun k hk => hgs k (by
      rw [List.mem_singleton.mp hk]
      exact List.mem_cons_self ..)
    refine ⟨(h.withGoals hg).goals, h.bindings, ?_⟩
    intro c hc
    rcases List.mem_cons.mp hc with rfl | hc
    · exact ⟨h.goals, h.bindings, fun k hk => hgs k (List.mem_cons_of_mem g hk)⟩
    · exact h.choices c hc

/-- The goals that come with an alternative of a choice. -/
theorem goals_of_alternative {c : Choice} (h : c.Known n) {g : Goal} (hg : g ∈ c.alternatives) :
    ∀ k ∈ g :: c.goals, k.node < n := by
  intro k hk
  rcases List.mem_cons.mp hk with rfl | hk
  · exact h.alternatives k hg
  · exact h.goals k hk

theorem backtrack_known {cs : List Choice} {m : Machine} (hcs : ∀ c ∈ cs, c.Known n)
    (hm : backtrack cs = some m) : m.Known n := by
  induction cs using backtrack.induct with
  | case1 => exact absurd hm (by simp [backtrack])
  | case2 goals b cs ih =>
    rw [backtrack] at hm
    exact ih (fun c hc => hcs c (List.mem_cons_of_mem _ hc)) hm
  | case3 goals b g cs =>
    rw [backtrack] at hm
    obtain rfl := Option.some.inj hm
    have hfirst := hcs _ (List.mem_cons_self ..)
    exact ⟨goals_of_alternative hfirst (List.mem_cons_self ..), hfirst.bindings,
      fun c hc => hcs c (List.mem_cons_of_mem _ hc)⟩
  | case4 goals b g gs cs hgs =>
    rw [backtrack] at hm
    · obtain rfl := Option.some.inj hm
      have hfirst := hcs _ (List.mem_cons_self ..)
      refine ⟨goals_of_alternative hfirst (List.mem_cons_self ..), hfirst.bindings, ?_⟩
      intro c hc
      rcases List.mem_cons.mp hc with rfl | hc
      · exact ⟨hfirst.goals, hfirst.bindings,
          fun k hk => hfirst.alternatives k (List.mem_cons_of_mem g hk)⟩
      · exact hcs c (List.mem_cons_of_mem _ hc)
    · exact hgs

/-- Working on a goal brings in no unknown node. -/
theorem work_known (hs : s.Known) {possible : Bool} {m m' : Machine} {g : Goal}
    (h : m.Known s.tree.nodes.size) (hg : g.node < s.tree.nodes.size)
    (hm : m.work s possible g = some m') : m'.Known s.tree.nodes.size := by
  cases g with
  | fits id p =>
    obtain ⟨d, v, c⟩ := p
    obtain ⟨b, hb, rfl⟩ := Option.map_eq_some_iff.mp hm
    have hcondition : ∀ k ∈ (c.map (Goal.meets id)).toList, k.node < s.tree.nodes.size := by
      intro k hk
      obtain ⟨_, _, rfl⟩ := Option.map_eq_some_iff.mp (Option.mem_toList.mp hk)
      exact hg
    exact ⟨(h.withGoals hcondition).goals, Scene.enter_all h.bindings hg hb, h.choices⟩
  | meets id c =>
    have hsame : ∀ cs : List Condition,
        ∀ k ∈ cs.map (Goal.meets id), k.node < s.tree.nodes.size := by
      intro cs k hk
      obtain ⟨_, _, rfl⟩ := List.mem_map.mp hk
      exact hg
    cases c with
    | all cs =>
      obtain rfl := Option.some.inj hm
      exact h.withGoals (hsame cs)
    | any cs => exact branch_known h (hsame cs) hm
    | not c =>
      rw [work] at hm
      split at hm
      · exact absurd hm (by simp)
      · obtain rfl := Option.some.inj hm
        exact h
    | optional c =>
      obtain rfl := Option.some.inj hm
      split
      · exact h.withGoals (hsame [c])
      · exact h
    | related r p =>
      refine branch_known h ?_ hm
      intro k hk
      obtain ⟨x, hx, rfl⟩ := List.mem_map.mp hk
      exact r.candidates_known hs m.bindings hg x hx

/-- **No step of a machine brings in an unknown node.** -/
theorem step_known (hs : s.Known) {possible : Bool} {gs : List Goal} {b : Bindings}
    {cs : List Choice} {g : Goal} {m' : Machine} (h : Known s.tree.nodes.size ⟨g :: gs, b, cs⟩)
    (hm : step s possible ⟨gs, b, cs⟩ g = some m') : m'.Known s.tree.nodes.size := by
  -- the machine that works on `g` has taken it off its goals
  have hrest : Known s.tree.nodes.size ⟨gs, b, cs⟩ :=
    ⟨fun k hk => h.goals k (List.mem_cons_of_mem g hk), h.bindings, h.choices⟩
  rcases Option.or_eq_some_iff.mp hm with hm | ⟨_, hm⟩
  · exact work_known hs hrest (h.goals g (List.mem_cons_self ..)) hm
  · exact backtrack_known h.choices hm

theorem isInvariant_known (hs : s.Known) : IsInvariant s (Known s.tree.nodes.size) where
  step h hm := step_known hs h hm
  back h hm := backtrack_known h.choices hm

/-- **A solution binds known nodes**, and the machine it leaves is as before. -/
theorem nextUnseen_known (hs : s.Known) {seen : List Bindings} {m m' : Machine} {b : Bindings}
    (h : m.Known s.tree.nodes.size) (hm : m.nextUnseen s seen = some (b, m')) :
    b.Known s.tree.nodes.size ∧ m'.Known s.tree.nodes.size := by
  obtain ⟨hknown, -, rfl⟩ := (isInvariant_known hs).nextUnseen h hm
  exact ⟨hknown.bindings, hknown⟩

end Machine

/-! ## Matches and enumerations -/

/-- A match with nodes of an arena of a given size. -/
structure Match.Known (n : Nat) (m : Match) : Prop where
  root : m.root < n
  bindings : m.bindings.Known n

theorem Match.Known.mono {n k : Nat} {m : Match} (h : m.Known n) (hnk : n ≤ k) : m.Known k :=
  ⟨Nat.lt_of_lt_of_le h.root hnk, h.bindings.mono hnk⟩

/-- A captured name has a known node. -/
theorem Match.Known.node {n : Nat} {m : Match} (h : m.Known n) {name : String} {id : NodeId}
    (hid : m.node? name = some id) : id < n := by
  obtain ⟨v, _, hv⟩ := Option.bind_eq_some_iff.mp hid
  exact h.bindings id (List.mem_of_getElem? (Option.join_eq_some_iff.mp hv))

/-- An enumeration that has to do with nodes of an arena of a given size. -/
structure Enumeration.Known (n : Nat) (e : Enumeration) : Prop where
  index : AllKnown n e.index.preorder
  roots : AllKnown n e.roots
  current : ∀ root machine, e.current = some (root, machine) → root < n ∧ machine.Known n

namespace Enumeration

theorem Known.mono {n k : Nat} {e : Enumeration} (h : e.Known n) (hnk : n ≤ k) : e.Known k :=
  ⟨h.index.mono hnk, h.roots.mono hnk, fun root machine hc =>
    ⟨Nat.lt_of_lt_of_le (h.current root machine hc).1 hnk,
      (h.current root machine hc).2.mono hnk⟩⟩

variable {t : Tree} (ht : t.WellFormed)

include ht

theorem start_known (p : Pattern) (mode : Mode) : (start p mode t).Known t.nodes.size := by
  have hattached : AllKnown t.nodes.size t.attached := fun _ hx => ht.lt_size_of_mem_attached hx
  refine ⟨hattached, ?_, fun _ _ hc => absurd hc (by simp [start])⟩
  show AllKnown t.nodes.size (rootsOf p (Index.build t))
  unfold rootsOf
  split
  · rw [roots_of_labels ht]
    exact hattached.sublist fun _ hx => (List.mem_filter.mp hx).1
  · exact hattached

theorem resume_known {e e' : Enumeration} {m : Match} (he : e.Known t.nodes.size)
    (hm : e.resume t = some (m, e')) : m.Known t.nodes.size ∧ e'.Known t.nodes.size := by
  unfold resume at hm
  obtain ⟨⟨root, machine⟩, hcurrent, hm⟩ := Option.bind_eq_some_iff.mp hm
  obtain ⟨⟨b, left⟩, hnext, hm⟩ := Option.bind_eq_some_iff.mp hm
  obtain ⟨rfl, rfl⟩ := Prod.mk.inj (Option.some.inj hm)
  obtain ⟨hroot, hmachine⟩ := he.current root machine hcurrent
  have hs : Scene.Known ⟨t, e.index, e.pattern.marks⟩ := ⟨ht, he.index⟩
  obtain ⟨hb, hleft⟩ := Machine.nextUnseen_known hs hmachine hnext
  refine ⟨⟨hroot, hb⟩, he.index, he.roots, ?_⟩
  intro root' machine' hc
  dsimp only at hc
  split at hc
  · exact absurd hc (by simp)
  · obtain ⟨rfl, rfl⟩ := Prod.mk.inj (Option.some.inj hc)
    exact ⟨hroot, hleft⟩

theorem tryRoots_known {e e' : Enumeration} {m : Match} {roots : List NodeId}
    (he : e.Known t.nodes.size) (hroots : AllKnown t.nodes.size roots)
    (hm : e.tryRoots t roots = (some m, e')) : m.Known t.nodes.size ∧ e'.Known t.nodes.size := by
  induction roots generalizing e with
  | nil => exact absurd (Prod.mk.inj hm).1 (by simp)
  | cons r rs ih =>
    have hr := hroots r (List.mem_cons_self ..)
    have hrs : AllKnown t.nodes.size rs := fun x hx => hroots x (List.mem_cons_of_mem r hx)
    have hturned : (e.turnTo r rs).Known t.nodes.size := by
      refine ⟨he.index, hrs, ?_⟩
      intro root machine hc
      obtain ⟨rfl, rfl⟩ := Prod.mk.inj (Option.some.inj hc)
      exact ⟨hr, Machine.start_known _ _ hr⟩
    rw [tryRoots_cons] at hm
    split at hm
    · rename_i hfound
      obtain ⟨hsame, rfl⟩ := Prod.mk.inj hm
      obtain rfl := Option.some.inj hsame
      exact resume_known ht hturned hfound
    · exact ih hturned hrs hm

/-- **A match has known nodes**, also if the tree was changed since the last one. -/
theorem next_known {e e' : Enumeration} {m : Match} (he : e.Known t.nodes.size)
    (hm : e.next t = (some m, e')) : m.Known t.nodes.size ∧ e'.Known t.nodes.size := by
  unfold next at hm
  split at hm
  · exact absurd (Prod.mk.inj hm).1 (by simp)
  · split at hm
    · rename_i hfound
      obtain ⟨hsame, rfl⟩ := Prod.mk.inj hm
      obtain rfl := Option.some.inj hsame
      exact resume_known ht he hfound
    · exact tryRoots_known ht he he.roots hm

theorem remaining_known {e : Enumeration} (he : e.Known t.nodes.size) :
    ∀ m ∈ e.remaining t, m.Known t.nodes.size := by
  induction e using remaining.induct t with
  | case1 e e' hnext =>
    rw [remaining_of_next_none hnext]
    exact fun _ hm => absurd hm (by simp)
  | case2 e m e' hnext ih =>
    obtain ⟨hm, he'⟩ := next_known ht he hnext
    rw [remaining_of_next hnext]
    exact List.forall_mem_cons.mpr ⟨hm, ih he'⟩

end Enumeration

/-- A search finds matches of the arena. -/
theorem Pattern.search_known {t : Tree} (ht : t.WellFormed) (p : Pattern) (mode : Mode) :
    ∀ m ∈ p.search mode t, m.Known t.nodes.size :=
  Enumeration.remaining_known ht (Enumeration.start_known ht p mode)

end Constituency
