import Constituency.Proofs.Tree.Traversal

/-!
# Laying out labelled trees at the end of an arena

`graft` numbers the nodes of a labelled tree in pre-order and puts them behind
those the arena has. `Segment` describes a row of nodes laid out in this way by
its links: every link stays inside the row and goes from a larger number to a
smaller one, except that the tops of the row have a parent given from outside.
Rows can be put next to each other, and a node in front of a row whose tops are
its children, which are the two ways in which a layout grows.

Since nothing that was in the arena is changed, a graft keeps it well-formed;
and the labelled tree can be read back where it was laid out.
-/

namespace Constituency

namespace Rose

mutual

theorem length_layout (base : NodeId) (parent : Option NodeId) :
    ∀ c : Constituent, (c.layout base parent).length = c.size
  | .node _ cs => by rw [layout, List.length_cons, length_layoutAll, size]

theorem length_layoutAll (base parent : NodeId) :
    ∀ cs : List Constituent, (layoutAll base parent cs).length = sizeAll cs
  | [] => rfl
  | c :: cs => by
    rw [layoutAll, List.length_append, length_layout, length_layoutAll, sizeAll]

end

theorem layoutAll_append (parent : NodeId) (cs ds : List Constituent) (base : NodeId) :
    layoutAll base parent (cs ++ ds) =
      layoutAll base parent cs ++ layoutAll (base + sizeAll cs) parent ds := by
  induction cs generalizing base with
  | nil => rfl
  | cons c cs ih =>
    rw [List.cons_append, layoutAll, layoutAll, ih, List.append_assoc, sizeAll, Nat.add_assoc]

theorem roots_append (cs ds : List Constituent) (base : NodeId) :
    roots base (cs ++ ds) = roots base cs ++ roots (base + sizeAll cs) ds := by
  induction cs generalizing base with
  | nil => rfl
  | cons c cs ih =>
    rw [List.cons_append, roots, roots, ih, List.cons_append, sizeAll, Nat.add_assoc]

end Rose

namespace Tree

/-- The arena has these nodes from a number on. -/
def Holds (t : Tree) (base : NodeId) (ns : List Node) : Prop :=
  ∀ (i : Nat) (n : Node), ns[i]? = some n → t.nodes[base + i]? = some n

theorem holds_cons {t : Tree} {base : NodeId} {n : Node} {ns : List Node}
    (h : t.Holds base (n :: ns)) : t.nodes[base]? = some n ∧ t.Holds (base + 1) ns := by
  refine ⟨h 0 n rfl, ?_⟩
  intro i m hm
  rw [Nat.add_assoc, Nat.add_comm 1 i]
  exact h (i + 1) m (by rwa [List.getElem?_cons_succ])

theorem holds_append {t : Tree} {base : NodeId} {ns ms : List Node}
    (h : t.Holds base (ns ++ ms)) : t.Holds base ns ∧ t.Holds (base + ns.length) ms := by
  constructor
  · intro i n hn
    refine h i n ?_
    rwa [List.getElem?_append_left (List.getElem?_eq_some_iff.mp hn).1]
  · intro i n hn
    rw [Nat.add_assoc]
    refine h (ns.length + i) n ?_
    rwa [List.getElem?_append_right (Nat.le_add_right ..), Nat.add_sub_cancel_left]

theorem holds_graft (t : Tree) (c : Constituent) :
    (t.graft c).1.Holds t.nodes.size (c.layout t.nodes.size none) := by
  intro i n hn
  simp only [graft, Array.getElem?_append_right (Nat.le_add_right ..), Nat.add_sub_cancel_left,
    List.getElem?_toArray]
  exact hn

@[simp] theorem size_graft (t : Tree) (c : Constituent) :
    (t.graft c).1.nodes.size = t.nodes.size + c.size := by
  simp [graft, Rose.length_layout]

/-! ## The links of a layout -/

/-- The nodes from `base` to below `limit` are linked among each other, parents before children;
only those of `tops` have their parent from outside. -/
structure Segment (t : Tree) (base limit : Nat) (parent : Option NodeId) (tops : List Nat) :
    Prop where
  child : ∀ p : Nat, base ≤ p → p < limit → ∀ c : Nat, c ∈ t.children p →
    p < c ∧ c < limit ∧ t.parent c = some p
  nodup : ∀ p : Nat, base ≤ p → p < limit → (t.children p).Nodup
  link : ∀ c : Nat, base ≤ c → c < limit → (c ∈ tops ∧ t.parent c = parent) ∨
    ∃ p : Nat, base ≤ p ∧ p < c ∧ t.parent c = some p ∧ c ∈ t.children p
  top : ∀ c : Nat, c ∈ tops → base ≤ c ∧ c < limit ∧ t.parent c = parent
  tops_nodup : tops.Nodup

theorem segment_nil (t : Tree) (base : Nat) (parent : Option NodeId) :
    t.Segment base base parent [] :=
  ⟨fun _ _ _ => by omega, fun _ _ _ => by omega, fun _ _ _ => by omega,
    fun _ h => absurd h (by simp), List.nodup_nil⟩

/-- Two rows next to each other. -/
theorem segment_append {t : Tree} {base mid limit : Nat} {parent : Option NodeId}
    {xs ys : List Nat} (hmid : base ≤ mid) (hlimit : mid ≤ limit)
    (hx : t.Segment base mid parent xs) (hy : t.Segment mid limit parent ys) :
    t.Segment base limit parent (xs ++ ys) := by
  refine ⟨?_, ?_, ?_, ?_, ?_⟩
  · intro p hp hl c hc
    rcases Nat.lt_or_ge p mid with hlt | hge
    · obtain ⟨h1, h2, h3⟩ := hx.child p hp hlt c hc
      exact ⟨h1, by omega, h3⟩
    · exact hy.child p hge hl c hc
  · intro p hp hl
    rcases Nat.lt_or_ge p mid with hlt | hge
    · exact hx.nodup p hp hlt
    · exact hy.nodup p hge hl
  · intro c hc hl
    rcases Nat.lt_or_ge c mid with hlt | hge
    · rcases hx.link c hc hlt with ⟨h1, h2⟩ | h
      · exact .inl ⟨List.mem_append_left _ h1, h2⟩
      · exact .inr h
    · rcases hy.link c hge hl with ⟨h1, h2⟩ | ⟨p, h1, h2⟩
      · exact .inl ⟨List.mem_append_right _ h1, h2⟩
      · exact .inr ⟨p, by omega, h2⟩
  · intro c hc
    rcases List.mem_append.mp hc with h | h
    · obtain ⟨h1, h2, h3⟩ := hx.top c h
      exact ⟨h1, by omega, h3⟩
    · obtain ⟨h1, h2, h3⟩ := hy.top c h
      exact ⟨by omega, h2, h3⟩
  · refine List.nodup_append.mpr ⟨hx.tops_nodup, hy.tops_nodup, ?_⟩
    intro a ha b hb hab
    have := (hx.top a ha).2.1
    have := (hy.top b hb).1
    omega

/-- A node in front of a row whose tops are its children. -/
theorem segment_cons {t : Tree} {base limit : Nat} {parent : Option NodeId}
    (hlimit : base + 1 ≤ limit) (hp : t.parent base = parent)
    (h : t.Segment (base + 1) limit (some base) (t.children base)) :
    t.Segment base limit parent [base] := by
  refine ⟨?_, ?_, ?_, ?_, by simp⟩
  · intro p hp hl c hc
    rcases Nat.eq_or_lt_of_le hp with rfl | hlt
    · obtain ⟨h1, h2, h3⟩ := h.top c hc
      exact ⟨h1, h2, h3⟩
    · exact h.child p hlt hl c hc
  · intro p hp hl
    rcases Nat.eq_or_lt_of_le hp with rfl | hlt
    · exact h.tops_nodup
    · exact h.nodup p hlt hl
  · intro c hc hl
    rcases Nat.eq_or_lt_of_le hc with rfl | hlt
    · exact .inl ⟨List.mem_singleton_self _, hp⟩
    · rcases h.link c hlt hl with ⟨h1, h2⟩ | ⟨p, h1, h2⟩
      · exact .inr ⟨base, Nat.le_refl _, hlt, h2, h1⟩
      · exact .inr ⟨p, by omega, h2⟩
  · intro c hc
    obtain rfl := List.mem_singleton.mp hc
    exact ⟨Nat.le_refl _, hlimit, hp⟩

mutual

theorem segment_layout {t : Tree} : ∀ (c : Constituent) (base : NodeId) (parent : Option NodeId),
    t.Holds base (c.layout base parent) → t.Segment base (base + c.size) parent [base]
  | .node l cs, base, parent, h => by
    rw [Rose.layout] at h
    obtain ⟨hhead, htail⟩ := holds_cons h
    have hseg := segment_layoutAll cs (base + 1) base htail
    have hchildren : t.children base = Rose.roots (base + 1) cs := by
      rw [children_eq, hhead]; rfl
    rw [Rose.size, ← Nat.add_assoc, Nat.add_right_comm]
    refine segment_cons (by omega) (by rw [parent_eq, hhead]; rfl) ?_
    rwa [hchildren]

theorem segment_layoutAll {t : Tree} : ∀ (cs : List Constituent) (base parent : NodeId),
    t.Holds base (Rose.layoutAll base parent cs) →
    t.Segment base (base + Rose.sizeAll cs) (some parent) (Rose.roots base cs)
  | [], base, parent, _ => segment_nil t base _
  | c :: cs, base, parent, h => by
    rw [Rose.layoutAll] at h
    obtain ⟨hc, hcs⟩ := holds_append h
    rw [Rose.length_layout] at hcs
    have hfirst := segment_layout c base (some parent) hc
    have hrest := segment_layoutAll cs (base + c.size) parent hcs
    rw [Rose.sizeAll, ← Nat.add_assoc]
    exact segment_append (Nat.le_add_right ..) (Nat.le_add_right ..) hfirst hrest

end

theorem segment_graft (t : Tree) (c : Constituent) :
    (t.graft c).1.Segment t.nodes.size (t.graft c).1.nodes.size none [t.nodes.size] := by
  rw [size_graft]
  exact segment_layout c _ _ (holds_graft t c)

/-- The ancestors of a new node come before it. -/
theorem lt_of_under_graft (t : Tree) (c : Constituent) {a b : Nat}
    (ha : t.nodes.size ≤ a) (hab : (t.graft c).1.Under a b) : t.nodes.size ≤ b ∧ b < a := by
  -- one link at a time: from a new node to a new node with a smaller number
  have hlink : ∀ a b : Nat, t.nodes.size ≤ a → (t.graft c).1.Link a b →
      t.nodes.size ≤ b ∧ b < a := by
    intro a b ha hl
    rcases (t.segment_graft c).link a ha (lt_size_of_parent hl) with ⟨_, hnone⟩ | ⟨p, h1, h2, h3, _⟩
    · rw [Link, hnone] at hl
      exact absurd hl (by simp)
    · rw [Link, h3] at hl
      obtain rfl := Option.some.inj hl
      exact ⟨h1, h2⟩
  induction hab with
  | single hl => exact hlink _ _ ha hl
  | tail _ hl ih =>
    obtain ⟨h1, h2⟩ := hlink _ _ ih.1 hl
    exact ⟨h1, Nat.lt_trans h2 ih.2⟩

/-! ## A graft keeps an arena well-formed -/

namespace WellFormed

variable {t : Tree}

/-- The ancestors of a node that was there are those it had. -/
theorem under_graft (h : t.WellFormed) (c : Constituent) {a b : NodeId} (ha : a < t.nodes.size)
    (hab : (t.graft c).1.Under a b) : t.Under a b := by
  induction hab with
  | single hl => exact .single (by rwa [Link, parent_graft t c ha] at hl)
  | tail _ hl ih => exact .tail ih (by rwa [Link, parent_graft t c (h.under_lt_size ih)] at hl)

/-- **Adding nodes keeps an arena well-formed.** -/
theorem graft (h : t.WellFormed) (c : Constituent) : (t.graft c).1.WellFormed := by
  have hseg := t.segment_graft c
  refine ⟨?_, ?_, ?_, ?_, ?_⟩
  · intro r hr
    rw [size_graft]
    exact Nat.lt_of_lt_of_le (h.root_known r hr) (Nat.le_add_right ..)
  · intro r hr
    rw [parent_graft t c (h.root_known r hr)]
    exact h.root_top r hr
  · intro p
    rcases Nat.lt_or_ge p t.nodes.size with hp | hp
    · rw [children_graft t c hp]
      exact h.children_nodup p
    · by_cases hl : p < (t.graft c).1.nodes.size
      · exact hseg.nodup p hp hl
      · rw [children_of_not_contains hl]
        exact List.nodup_nil
  · intro p k
    rcases Nat.lt_or_ge p t.nodes.size with hp | hp
    · rw [children_graft t c hp, h.mem_children_iff]
      rcases Nat.lt_or_ge k t.nodes.size with hk | hk
      · rw [parent_graft t c hk]
      · -- a new node has a new parent, or none
        rw [parent_of_not_contains (Nat.not_lt.mpr hk)]
        refine ⟨fun hno => absurd hno (by simp), fun hl => ?_⟩
        have := (t.lt_of_under_graft c hk (.single hl)).1
        exact absurd hp (Nat.not_lt.mpr this)
    · constructor
      · intro hk
        exact (hseg.child p hp (lt_size_of_mem_children hk) k hk).2.2
      · intro hl
        have hk : t.nodes.size ≤ k := by
          rcases Nat.lt_or_ge k t.nodes.size with hk | hk
          · rw [parent_graft t c hk] at hl
            exact absurd (h.parent_lt_size hl) (Nat.not_lt.mpr hp)
          · exact hk
        rcases hseg.link k hk (lt_size_of_parent hl) with ⟨_, hnone⟩ | ⟨q, _, _, hq, hmem⟩
        · rw [hnone] at hl
          exact absurd hl (by simp)
        · rw [hq] at hl
          obtain rfl := Option.some.inj hl
          exact hmem
  · intro n hn
    rcases Nat.lt_or_ge n t.nodes.size with hlt | hge
    · exact h.acyclic n (h.under_graft c hlt hn)
    · exact Nat.lt_irrefl n (t.lt_of_under_graft c hge hn).2

end WellFormed

/-! ## A layout denotes the tree it was made from -/

mutual

/-- What is below a node of a layout: the labels that were laid out, numbered in pre-order. -/
theorem labelled_belowUpTo_layout {t : Tree} : ∀ (c : Constituent) (k base : Nat)
    (parent : Option NodeId), t.Holds base (c.layout base parent) → c.size ≤ k + 1 →
      (t.belowUpTo k base).map (fun n => (t.label n, n)) = c.numbered base
  | .node l cs, k, base, parent, h, hk => by
    rw [Rose.layout] at h
    obtain ⟨hhead, htail⟩ := holds_cons h
    have hchildren : t.children base = Rose.roots (base + 1) cs := by
      rw [children_eq, hhead]; rfl
    have hlabel : t.label base = l := by rw [label_eq, hhead]; rfl
    rw [Rose.size] at hk
    cases k with
    | zero =>
      -- a tree of one node has no children that the bound could cut off
      cases cs with
      | nil => rw [belowUpTo, Rose.map, hlabel, Rose.mapAll]; rfl
      | cons c cs =>
        cases c
        rw [Rose.sizeAll, Rose.size] at hk
        omega
    | succ k =>
      rw [belowUpTo, Rose.map, hlabel, hchildren, Rose.numbered,
        labelledAll_belowUpTo_layoutAll cs k (base + 1) base htail (by omega)]

theorem labelledAll_belowUpTo_layoutAll {t : Tree} : ∀ (cs : List Constituent) (k base : Nat)
    (parent : NodeId), t.Holds base (Rose.layoutAll base parent cs) → Rose.sizeAll cs ≤ k + 1 →
      Rose.mapAll (fun n => (t.label n, n)) ((Rose.roots base cs).map (t.belowUpTo k)) =
        Rose.numberedAll base cs
  | [], _, _, _, _, _ => rfl
  | c :: cs, k, base, parent, h, hk => by
    rw [Rose.layoutAll] at h
    obtain ⟨hc, hcs⟩ := holds_append h
    rw [Rose.length_layout] at hcs
    rw [Rose.sizeAll] at hk
    rw [Rose.roots, List.map_cons, Rose.mapAll, Rose.numberedAll,
      labelled_belowUpTo_layout c k base _ hc (by omega),
      labelledAll_belowUpTo_layoutAll cs k (base + c.size) parent hcs (by omega)]

end

section holds

variable {t : Tree} {c : Constituent} {base : Nat} {parent : Option NodeId}
  (h : t.Holds base (c.layout base parent)) (hsize : c.size ≤ t.nodes.size)

include h hsize

/-- **The nodes of a layout are numbered in pre-order.** -/
theorem below_of_holds : t.below base = (c.numbered base).map Prod.snd := by
  have hlabelled := labelled_belowUpTo_layout c _ base parent h (Nat.le_succ_of_le hsize)
  rw [← hlabelled, Rose.map_map]
  exact (Rose.map_id _).symm

/-- **What is laid out in an arena can be read back.** -/
theorem constituent_of_holds : t.constituent base = c := by
  have hlabelled := labelled_belowUpTo_layout c _ base parent h (Nat.le_succ_of_le hsize)
  have hlabels := congrArg (Rose.map Prod.fst) hlabelled
  rwa [Rose.map_map, Rose.map_fst_numbered] at hlabels

end holds

theorem holds_ofConstituent (c : Constituent) :
    (ofConstituent (some c)).Holds 0 (c.layout 0 none) := by
  intro i n hn
  rw [Nat.zero_add]
  simpa [ofConstituent] using hn

theorem size_ofConstituent (c : Constituent) :
    (ofConstituent (some c)).nodes.size = c.size := by
  simp [ofConstituent, Rose.length_layout]

theorem constituent_ofConstituent (c : Constituent) : (ofConstituent (some c)).constituent 0 = c :=
  constituent_of_holds (holds_ofConstituent c) (Nat.le_of_eq (size_ofConstituent c).symm)

theorem constituent_graft (t : Tree) (c : Constituent) :
    (t.graft c).1.constituent t.nodes.size = c :=
  constituent_of_holds (holds_graft t c) (by rw [size_graft]; exact Nat.le_add_left ..)

end Tree

end Constituency
