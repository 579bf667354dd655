import Mathlib.Data.List.Forall2
import Constituency.Proofs.Tree.Rearranging
import Constituency.Proofs.Tree.Shape

/-!
# What new children show

When the children of a node are replaced, the old ones are released first, and only then is one new
child placed after the other, by moving it or by copying it. While they are placed the parent lists
no children, so no list of children changes, and what a node shows stays the same from one round to
the next (`constituent_placeAll`). Therefore it does not matter in which order the nodes are asked
for, or how often: what is placed for a node shows what the node showed when the old children had
been released.

That is what it showed before, with all that is below the parent left out (`Rose.cut`). So the
parent itself and the nodes above it, which have to be copied, are not copied in full unless the
parent had no children (`replaceChildren_shows`).
-/

namespace Constituency

namespace Rose

variable {α : Type}

mutual

/-- A tree without what is below the nodes of a kind. -/
def cut (stop : α → Bool) : Rose α → Rose α
  | .node a rs => .node a (if stop a then [] else cutAll stop rs)

/-- Several trees without what is below the nodes of a kind. -/
def cutAll (stop : α → Bool) : List (Rose α) → List (Rose α)
  | [] => []
  | r :: rs => r.cut stop :: cutAll stop rs

end

theorem cutAll_eq_map (stop : α → Bool) (rs : List (Rose α)) :
    cutAll stop rs = rs.map (cut stop) := by
  induction rs with
  | nil => rfl
  | cons r rs ih => rw [cutAll, ih, List.map_cons]

end Rose

namespace Tree

variable {t u : Tree} {p n : NodeId}

/-! ## What is shown depends on labels and children -/

/-- Two arenas with the same labels and the same lists of children; the parents that nodes name can
differ. -/
structure SameBelow (t u : Tree) : Prop where
  size : u.nodes.size = t.nodes.size
  label : ∀ n, u.label n = t.label n
  children : ∀ n, u.children n = t.children n

theorem SameBelow.constituent (h : SameBelow t u) (n : NodeId) :
    u.constituent n = t.constituent n := by
  have hbelow : ∀ k n, u.belowUpTo k n = t.belowUpTo k n := by
    intro k
    induction k with
    | zero => exact fun _ => rfl
    | succ k ih =>
      intro n
      rw [belowUpTo, belowUpTo, h.children, funext ih]
  rw [Tree.constituent, Tree.constituent, below, below, h.size, hbelow, funext h.label]

theorem sameBelow_setParent (t : Tree) (n : NodeId) (q : Option NodeId) :
    SameBelow t (t.setParent n q) :=
  ⟨size_setParent t n q, fun m => label_setParent t n m q, fun m => children_setParent t n m q⟩

theorem sameBelow_touch (t : Tree) (n : NodeId) : SameBelow t (t.touch n) :=
  ⟨by rw [nodes_touch], fun m => label_touch t n m, fun m => children_touch t n m⟩

/-- A node shows the same if all nodes below it do so for themselves. -/
theorem WellFormed.constituent_congr (ht : t.WellFormed) (hu : u.WellFormed)
    (hsame : ∀ m, t.AtOrUnder m n → u.label m = t.label m ∧ u.children m = t.children m) :
    u.constituent n = t.constituent n := by
  induction n using ht.down_induction with
  | step n ih =>
    obtain ⟨hlabel, hchildren⟩ := hsame n .refl
    rw [hu.constituent_eq, ht.constituent_eq, hlabel, hchildren]
    congr 1
    refine List.map_congr_left fun c hc => ih c hc fun m hm => hsame m ?_
    exact hm.tail ((ht.mem_children_iff n c).mp hc)

/-! ## Released children -/

/-- Releasing the children of a node leaves out what is below it. -/
theorem WellFormed.below_releaseChildren (h : t.WellFormed) (p n : NodeId) :
    (t.releaseChildren p).below n = (t.below n).cut (· == p) := by
  induction n using h.down_induction with
  | step n ih =>
    rw [(h.releaseChildren p).below_eq, h.below_eq, Rose.cut, children_releaseChildren,
      Rose.cutAll_eq_map, List.map_map]
    by_cases hn : p = n
    · rw [if_pos hn, if_pos (beq_iff_eq.mpr hn.symm)]
      rfl
    · rw [if_neg hn, if_neg (by simpa using Ne.symm hn)]
      congr 1
      exact List.map_congr_left ih

theorem WellFormed.constituent_releaseChildren (h : t.WellFormed) (p n : NodeId) :
    (t.releaseChildren p).constituent n = ((t.below n).cut (· == p)).map t.label := by
  rw [constituent, h.below_releaseChildren, funext (label_releaseChildren t p)]

/-- **A node shows the same without the children of another** exactly if there are none or the other
node is not below it. -/
theorem WellFormed.constituent_releaseChildren_iff (h : t.WellFormed) (p n : NodeId) :
    (t.releaseChildren p).constituent n = t.constituent n ↔
      t.children p = [] ∨ ¬ t.AtOrUnder p n := by
  have hu := h.releaseChildren p
  constructor
  · intro hsame
    refine or_iff_not_imp_left.mpr fun hchildren hpn => ?_
    obtain ⟨c, hc⟩ := List.exists_mem_of_ne_nil _ hchildren
    have hlink := (h.mem_children_iff p c).mp hc
    -- the child is missing from the nodes below, and none is new there
    have hmissing : c ∉ (t.releaseChildren p).preorder n := by
      intro hcn
      rcases Relation.ReflTransGen.cases_head (hu.mem_preorder_iff.mp hcn) with rfl | ⟨q, hq, _⟩
      · exact h.not_mem_children_of_atOrUnder hpn hc
      · rw [Link, parent_releaseChildren, if_pos hc] at hq
        exact absurd hq (by simp)
    have hfewer : (t.releaseChildren p).preorder n ⊆ (t.preorder n).erase c := by
      intro m hm
      refine (List.mem_erase_of_ne fun heq => hmissing (by rwa [← heq])).mpr ?_
      refine h.mem_preorder_iff.mpr ?_
      rcases Relation.reflTransGen_iff_eq_or_transGen.mp (hu.mem_preorder_iff.mp hm) with
        rfl | hunder
      · exact .refl
      · exact (under_of_releaseChildren hunder).to_reflTransGen
    have hle := (List.subperm_of_subset (hu.preorder_nodup n) hfewer).length_le
    have hcn : c ∈ t.preorder n := h.mem_preorder_iff.mpr (.head hlink hpn)
    have hlength := List.length_erase_of_mem hcn
    have hpos := List.length_pos_of_mem hcn
    have heq := congrArg (fun c : Constituent => c.preorder.length) hsame
    simp only [preorder_constituent, List.length_map] at heq
    omega
  · intro hnone
    refine h.constituent_congr hu fun m hm => ⟨label_releaseChildren t p m, ?_⟩
    rw [children_releaseChildren]
    split
    · rename_i hpm
      subst hpm
      exact (hnone.resolve_right fun hnot => hnot hm).symm
    · rfl

/-! ## Placing -/

/-- While children are placed the arena is, but for the parents that the placed nodes name, the one
where all of them are released again. -/
theorem sameBelow_releaseChildren {w : Tree} (placed : List NodeId) (hempty : w.children p = []) :
    SameBelow ((w.setChildren p placed).releaseChildren p) w := by
  refine ⟨by rw [size_releaseChildren, size_setChildren], fun n => ?_, fun n => ?_⟩
  · rw [label_releaseChildren, label_setChildren]
  · rw [children_releaseChildren, children_setChildren]
    split
    · rename_i hn
      exact hn ▸ hempty
    · rename_i hn
      rw [if_neg fun hand => hn hand.1]

/-- A node that was there shows the same when a labelled tree is added while children are placed. -/
theorem constituent_graft_of_lt {w : Tree} {placed : List NodeId}
    (h : (w.setChildren p placed).WellFormed) (hp : p < w.nodes.size) (hempty : w.children p = [])
    (k : Constituent) (hn : n < w.nodes.size) :
    (w.graft k).1.constituent n = w.constituent n := by
  have hwf : ((w.graft k).1.setChildren p placed).WellFormed := by
    rw [← graft_setChildren w placed k hp]
    exact h.graft k
  have hbefore := sameBelow_releaseChildren placed hempty
  have hafter := sameBelow_releaseChildren placed ((children_graft w k hp).trans hempty)
  have hsame := (h.releaseChildren p).constituent_congr (n := n) (hwf.releaseChildren p)
    fun m hm => by
      have hmw : m < w.nodes.size := by
        rcases Relation.ReflTransGen.cases_head hm with rfl | ⟨q, hq, _⟩
        · exact hn
        · have hlt := lt_size_of_parent hq
          rwa [← hbefore.size] at hlt
      exact ⟨(hafter.label m).symm.trans ((label_graft w k hmw).trans (hbefore.label m)),
        (hafter.children m).symm.trans ((children_graft w k hmw).trans (hbefore.children m))⟩
  exact (hafter.constituent n).trans (hsame.trans (hbefore.constituent n).symm)

/-- **One round of placing**: what was there shows the same, and what is placed shows what the node
that was asked for shows. -/
theorem constituent_place {w : Tree} {placed : List NodeId} (c : NodeId)
    (h : (w.setChildren p placed).WellFormed) (hp : p < w.nodes.size) (hempty : w.children p = []) :
    (∀ n < w.nodes.size, (w.place p placed c).1.constituent n = w.constituent n) ∧
      (w.place p placed c).1.constituent (w.place p placed c).2 = w.constituent c ∧
      ((w.place p placed c).2 = c ∨ (w.place p placed c).2 = w.nodes.size) := by
  rcases place_cases w p placed c with hcopy | ⟨hmove, _⟩
  · rw [hcopy]
    exact ⟨fun n hn => constituent_graft_of_lt h hp hempty _ hn, constituent_graft w _, .inr rfl⟩
  · rw [hmove]
    exact ⟨fun _ _ => rfl, rfl, .inl rfl⟩

/-- **Placing changes nothing that is shown**: what is placed for a node shows what the node showed
at the beginning. -/
theorem constituent_placeAll {k : Nat} {f : NodeId → Constituent} :
    ∀ (cs placed : List NodeId) (w : Tree), (w.setChildren p placed).WellFormed →
    p < w.nodes.size → k ≤ w.nodes.size → w.children p = [] →
    (∀ c ∈ cs, c < w.nodes.size ∧ w.constituent c = f c) →
    (w.placeAll p placed cs).1.children p = [] ∧
      (∀ n < w.nodes.size, (w.placeAll p placed cs).1.constituent n = w.constituent n) ∧
      ∃ ds, (w.placeAll p placed cs).2 = placed ++ ds ∧ List.Forall₂ (fun c d =>
        (d = c ∨ k ≤ d) ∧ (w.placeAll p placed cs).1.constituent d = f c) cs ds
  | [], placed, w, _, _, _, hempty, _ =>
    ⟨hempty, fun _ _ => rfl, [], (List.append_nil placed).symm, .nil⟩
  | c :: cs, placed, w, h, hp, hw, hempty, hcs => by
    obtain ⟨⟨hc, hshown⟩, hcs⟩ := List.forall_mem_cons.mp hcs
    obtain ⟨hwf, hready, hsize⟩ := place_ready h hp hc
    obtain ⟨hkept, hnew, hwhich⟩ := constituent_place c h hp hempty
    have hnone := (children_place w p placed c hp).trans hempty
    rw [placeAll_cons]
    generalize w.place p placed c = made at *
    obtain ⟨u, d⟩ := made
    dsimp only at *
    -- the parent that is written down for the new child changes nothing that is shown
    have hsame := sameBelow_setParent u d (some p)
    have hround : ∀ n < w.nodes.size, (u.setParent d (some p)).constituent n = w.constituent n :=
      fun n hn => (hsame.constituent n).trans (hkept n hn)
    have hlt : ∀ n < w.nodes.size, n < (u.setParent d (some p)).nodes.size := fun n hn => by
      rw [hsame.size]
      exact Nat.lt_of_lt_of_le hn hsize
    obtain ⟨hend, hlater, ds, hds, hall⟩ := constituent_placeAll (k := k) cs (placed ++ [d]) _
      (place_wellFormed hwf (Nat.lt_of_lt_of_le hp hsize) hready) (hlt p hp)
      (by rw [hsame.size]; exact Nat.le_trans hw hsize) ((hsame.children p).trans hnone)
      fun y hy => ⟨hlt y (hcs y hy).1, (hround y (hcs y hy).1).trans (hcs y hy).2⟩
    refine ⟨hend, fun n hn => (hlater n (hlt n hn)).trans (hround n hn), d :: ds, ?_,
      .cons ⟨?_, ?_⟩ hall⟩
    · rw [hds, List.append_assoc, List.singleton_append]
    · exact hwhich.imp_right fun heq => Nat.le_trans hw (Nat.le_of_eq heq.symm)
    · have hd : d < (u.setParent d (some p)).nodes.size := by
        have hknown := hready.known
        rwa [size_setChildren, ← hsame.size] at hknown
      rw [hlater d hd, hsame.constituent, hnew, hshown]

/-- A child shows the same as before it was listed. -/
theorem constituent_setChildren_of_mem {w : Tree} {placed : List NodeId}
    (h : (w.setChildren p placed).WellFormed) (hp : p < w.nodes.size) (hempty : w.children p = [])
    (hn : n ∈ placed) : (w.setChildren p placed).constituent n = w.constituent n := by
  have hsame := sameBelow_releaseChildren placed hempty
  have hlink : (w.setChildren p placed).parent n = some p := by
    rw [← h.mem_children_iff, children_setChildren, if_pos ⟨rfl, hp⟩]
    exact hn
  refine ((hsame.constituent n).trans ?_).symm
  refine h.constituent_congr (h.releaseChildren p) fun m hm => ⟨label_releaseChildren .., ?_⟩
  rw [children_releaseChildren, if_neg]
  -- the parent is not below its child
  rintro rfl
  exact h.acyclic p (Relation.TransGen.tail' hm hlink)

/-- **What replacing the children of a node comes to.**

The nodes that are returned are the new children, one for each node that was asked for, in that
order: the node itself or a new one. Below it there is what was below the node that was asked for,
in the same order and with the same labels, except that all that was below the parent is left out.
So it shows what that node showed before exactly if the parent had no children or is neither that
node nor below it. -/
theorem replaceChildren_shows (h : t.WellFormed) (hp : p < t.nodes.size) {cs : List NodeId}
    (hcs : ∀ c ∈ cs, c < t.nodes.size) :
    let u := (t.replaceChildren p cs).1
    u.WellFormed ∧ u.children p = (t.replaceChildren p cs).2 ∧
      List.Forall₂ (fun c d => (d = c ∨ t.nodes.size ≤ d) ∧
        u.constituent d = ((t.below c).cut (· == p)).map t.label ∧
        (u.constituent d = t.constituent c ↔ t.children p = [] ∨ ¬ t.AtOrUnder p c))
        cs (t.replaceChildren p cs).2 := by
  intro u
  have hsize : (t.releaseChildren p).nodes.size = t.nodes.size := size_releaseChildren t p
  have hempty : (t.releaseChildren p).children p = [] := by
    rw [children_releaseChildren, if_pos rfl]
  obtain ⟨hwf, hgrown⟩ := placeAll_releaseChildren h hp hcs
  obtain ⟨hnone, -, ds, hds, hall⟩ := constituent_placeAll (k := t.nodes.size)
    (f := (t.releaseChildren p).constituent) cs [] _ (h.setChildren_releaseChildren p)
    (by rwa [hsize]) (Nat.le_of_eq hsize.symm) hempty
    fun c hc => ⟨by rw [hsize]; exact hcs c hc, rfl⟩
  have hplaced : (t.replaceChildren p cs).2 = ds := hds
  have hpu : p < ((t.releaseChildren p).placeAll p [] cs).1.nodes.size :=
    Nat.lt_of_lt_of_le hp hgrown
  have hu := replaceChildren_fst t p cs
  rw [hds, List.nil_append] at hu hwf
  refine ⟨h.replaceChildren hp hcs, ?_, ?_⟩
  · show (t.replaceChildren p cs).1.children p = _
    rw [hu, hplaced, children_touch, children_setChildren, if_pos ⟨rfl, hpu⟩]
  · rw [hplaced]
    refine List.forall₂_iff_zip.mpr ⟨hall.length_eq, fun {c d} hcd => ?_⟩
    obtain ⟨hwhich, hshown⟩ := List.forall₂_zip hall hcd
    have hd : d ∈ ds := (List.of_mem_zip hcd).2
    have hsame : u.constituent d = (t.releaseChildren p).constituent c := by
      show (t.replaceChildren p cs).1.constituent d = _
      rw [hu, (sameBelow_touch _ p).constituent, constituent_setChildren_of_mem hwf hpu hnone hd,
        hshown]
    rw [hsame]
    exact ⟨hwhich, h.constituent_releaseChildren p c, h.constituent_releaseChildren_iff p c⟩

/-- In `(S (A a) (B b))` the children of `A` become its child, a copy of `B`, a copy of `A` and a
copy of its child. That of `A` is a bare node. -/
theorem replaceChildren_shows_of_itself :
    let t := Tree.ofConstituent (some (.node "S" [.node "A" [.node "a" []],
      .node "B" [.node "b" []]]))
    let u := (t.replaceChildren 1 [2, 3, 1, 2]).1
    t.WellFormed ∧ (t.replaceChildren 1 [2, 3, 1, 2]).2 = [2, 5, 7, 8] ∧
      u.children 1 = [2, 5, 7, 8] ∧ u.constituent 5 = t.constituent 3 ∧
      u.constituent 8 = t.constituent 2 ∧ u.constituent 7 ≠ t.constituent 1 := by
  intro t u
  have ht : t.WellFormed := wellFormed_ofConstituent _
  have hasked : ∀ c ∈ [2, 3, 1, 2], c < t.nodes.size := by decide
  obtain ⟨_, hchildren, hall⟩ := replaceChildren_shows ht (p := 1) (by decide) hasked
  have hplaced : (t.replaceChildren 1 [2, 3, 1, 2]).2 = [2, 5, 7, 8] := by decide
  rw [hplaced] at hchildren hall
  have hshown := fun c d hcd => (List.forall₂_zip hall (a := c) (b := d) hcd).2.2
  have hB : ¬ t.AtOrUnder 1 3 := fun hup => absurd (ht.mem_preorder_iff.mpr hup) (by decide)
  have hleaf : ¬ t.AtOrUnder 1 2 := fun hup => absurd (ht.mem_preorder_iff.mpr hup) (by decide)
  refine ⟨ht, hplaced, hchildren, (hshown 3 5 (by decide)).mpr (.inr hB),
    (hshown 2 8 (by decide)).mpr (.inr hleaf), fun hsame => ?_⟩
  rcases (hshown 1 7 (by decide)).mp hsame with hnone | hnot
  · exact absurd hnone (by decide)
  · exact hnot .refl

/-- In `(A b)` the one new child of `A` is to be `A` itself. The copy has lost the leaf, which was
released before it was made. -/
theorem replaceChildren_loses_below : ¬ ∀ (t : Tree) (p : NodeId) (cs : List NodeId), t.WellFormed →
    p < t.nodes.size → (∀ c ∈ cs, c < t.nodes.size) →
    (t.replaceChildren p cs).1.children p = (t.replaceChildren p cs).2 ∧
      List.Forall₂ (fun c d => (t.replaceChildren p cs).1.constituent d = t.constituent c)
        cs (t.replaceChildren p cs).2 := by
  intro hall
  let t := Tree.ofConstituent (some (.node "A" [.node "b" []]))
  have hone := (hall t 0 [0] (wellFormed_ofConstituent _) (by decide) (by decide)).2
  have hplaced : (t.replaceChildren 0 [0]).2 = [2] := by decide
  rw [hplaced] at hone
  have hsame := List.forall₂_zip hone (a := 0) (b := 2) (by decide)
  exact absurd (congrArg Rose.size hsame) (by decide)

end Tree

end Constituency
