import Constituency.Proofs.Tree.Rearranging
import Constituency.Proofs.Tree.Shape

/-!
# Copies of labelled trees in an arena

A labelled tree that is added to an arena is new in all its nodes, and nothing else has changed
(`Added`). Its nodes are numbered in pre-order from the end of the arena on (`below_graft`), so that
a node is found by its address in either tree (`Rose.at?`).

Copies can be made node by node: a new node, and then a copy of each child, linked behind the
children that the new node has got so far. To link one more new tree in this way is to have made the
parent with that child in the first place (`link_graft`). This is the step by which copies of a
subtree, of this tree or another one, come to be the same tree made at once (`copySubtree_eq`,
`importSubtree_eq`). Nothing is copied twice when the link is made by inserting a child, since a new
tree can always move below a new node (`pushChild_graft`).
-/

namespace Constituency

/-- A change at the first element behind the front of a list. -/
theorem modify_behind {α : Type} (front : List α) (a : α) (back : List α) (f : α → α) :
    (front ++ a :: back).modify front.length f = front ++ f a :: back := by
  induction front with
  | nil => rfl
  | cons b front ih => rw [List.cons_append, List.length_cons, List.modify_succ_cons, ih]; rfl

/-- The same at two places. -/
theorem modify_modify_behind {α : Type} (front : List α) (a : α) (mid : List α) (b : α)
    (back : List α) (f g : α → α) {i j : Nat} (hi : i = front.length)
    (hj : j = front.length + 1 + mid.length) :
    ((front ++ a :: (mid ++ b :: back)).modify i f).modify j g =
      front ++ f a :: (mid ++ g b :: back) := by
  have hlength : j = (front ++ f a :: mid).length := by
    rw [hj, List.length_append, List.length_cons, Nat.add_assoc, Nat.add_comm 1]
  have hsecond := modify_behind (front ++ f a :: mid) b back g
  rw [hi, modify_behind, hlength]
  rwa [List.append_assoc, List.append_assoc] at hsecond

namespace Tree

variable {t u : Tree} {n : NodeId}

/-! ## Where the nodes of a new tree are -/

/-- **The nodes of a new tree are numbered in pre-order** from the end of the arena on. -/
theorem below_graft (t : Tree) (c : Constituent) :
    (t.graft c).1.below t.nodes.size = (c.numbered t.nodes.size).map Prod.snd :=
  below_of_holds (holds_graft t c) (by rw [size_graft]; exact Nat.le_add_left ..)

theorem preorder_graft (t : Tree) (c : Constituent) :
    (t.graft c).1.preorder t.nodes.size = List.range' t.nodes.size c.size := by
  rw [preorder, below_graft, Rose.preorder_map, Rose.preorder_numbered, List.zipIdx_map_snd,
    Rose.length_preorder]

/-- At an address below a node there is all that is below the node there. -/
theorem WellFormed.at?_below (h : t.WellFormed) {d : Rose NodeId} {is : List Nat}
    (hd : (t.below n).at? is = some d) : d = t.below d.value := by
  induction is generalizing n with
  | nil =>
    obtain rfl := Option.some.inj hd
    rw [h.below_eq n]
    exact (h.below_eq n).symm
  | cons i is ih =>
    rw [h.below_eq] at hd
    obtain ⟨c, hc, hd⟩ := Option.bind_eq_some_iff.mp hd
    rw [Rose.children, List.getElem?_map] at hc
    obtain ⟨m, _, rfl⟩ := Option.map_eq_some_iff.mp hc
    exact ih hd

/-! ## What adding a labelled tree comes to -/

/-- The second tree is the first with a labelled tree added to its arena, detached and with its root
at a given node. -/
structure Added (t u : Tree) (c : Constituent) (root : NodeId) : Prop where
  wellFormed : u.WellFormed
  /-- The new nodes are those behind the end of the arena, each of them once. -/
  preorder : u.preorder root = List.range' t.arenaSize c.size
  size : u.arenaSize = t.arenaSize + c.size
  constituent : u.constituent root = c
  parent : u.parent root = none
  detached : ∀ n, t.arenaSize ≤ n → u.isAttached n = false
  root_eq : u.root = t.root
  revision : u.revision = t.revision
  kept : ∀ n < t.arenaSize,
    u.label n = t.label n ∧ u.parent n = t.parent n ∧ u.children n = t.children n

/-- **Adding a labelled tree.** -/
theorem WellFormed.added_graft (h : t.WellFormed) (c : Constituent) :
    Added t (t.graft c).1 c t.nodes.size where
  wellFormed := h.graft c
  preorder := preorder_graft t c
  size := size_graft t c
  constituent := constituent_graft t c
  parent := ((t.segment_graft c).top _ (List.mem_singleton_self _)).2.2
  detached := fun _ hn => h.isAttached_graft_of_le c hn
  root_eq := rfl
  revision := rfl
  kept := fun _ hn => (Grown.single t c).reads_eq hn

/-- A node of a growing arena keeps what is below it. -/
theorem Grown.constituent_eq (h : Grown t u) (ht : t.WellFormed) (hn : n < t.nodes.size) :
    u.constituent n = t.constituent n := by
  have hu := (ht.edits h.edits).1
  induction n using ht.down_induction with
  | step n ih =>
    obtain ⟨hlabel, _, hchildren⟩ := h.reads_eq hn
    rw [hu.constituent_eq, ht.constituent_eq, hlabel, hchildren]
    congr 1
    exact List.map_congr_left fun c hc => ih c hc (ht.child_lt_size hc)

/-! ## Copying node by node -/

theorem toList_graft (t : Tree) (c : Constituent) :
    (t.graft c).1.nodes.toList = t.nodes.toList ++ c.layout t.nodes.size none := by
  rw [graft, Array.toList_append]

/-- **Giving a new tree one more child**, which is new too, is making it with that child. -/
theorem link_graft (t : Tree) (l : Label) (ds : List Constituent) (c : Constituent) :
    let u := (t.graft (.node l ds)).1
    (u.graft c).1.link t.nodes.size ((u.graft c).1.children t.nodes.size).length u.nodes.size =
      (t.graft (.node l (ds ++ [c]))).1 := by
  intro u
  have hsize : u.nodes.size = t.nodes.size + 1 + Rose.sizeAll ds := by
    rw [size_graft, Rose.size, ← Nat.add_assoc, Nat.add_right_comm]
  obtain ⟨l', es⟩ := c
  -- the arena: what was there, the parent, its children so far, the new child
  have hnodes : (u.graft (.node l' es)).1.nodes.toList = t.nodes.toList ++
      ⟨l, none, Rose.roots (t.nodes.size + 1) ds⟩ ::
        (Rose.layoutAll (t.nodes.size + 1) t.nodes.size ds ++
          ⟨l', none, Rose.roots (u.nodes.size + 1) es⟩ ::
            Rose.layoutAll (u.nodes.size + 1) u.nodes.size es) := by
    rw [toList_graft, toList_graft, Rose.layout, Rose.layout, List.append_assoc]
    rfl
  have hlt : t.nodes.size < u.nodes.size := by omega
  have hchildren : (u.graft (.node l' es)).1.children t.nodes.size =
      Rose.roots (t.nodes.size + 1) ds := by
    rw [children_graft u _ hlt, children_eq, (holds_cons (holds_graft t (.node l ds))).1]
    rfl
  refine eq_of_fields (Array.ext' ?_) rfl rfl
  rw [link, setParent, setChildren, Array.toList_modify, Array.toList_modify, hnodes, hchildren,
    toList_graft, List.insertIdx_length_self, Rose.layout, Rose.layoutAll_append,
    Rose.roots_append, modify_modify_behind _ _ _ _ _ _ _ Array.length_toList.symm
      (by rw [hsize, Rose.length_layoutAll, Array.length_toList])]
  rw [Rose.layoutAll, Rose.layoutAll, List.append_nil, Rose.layout, ← hsize]
  rfl

/-- Links a new node behind the children of another. -/
def linkLast (parent : NodeId) (made : Tree × NodeId) : Tree :=
  made.1.link parent (made.1.children parent).length made.2

/-- **Inserting a new tree below a new node** does not copy it again. -/
theorem WellFormed.pushChild_graft (h : t.WellFormed) (l : Label) (ds : List Constituent)
    (c : Constituent) :
    let u := (t.graft (.node l ds)).1
    (u.graft c).1.pushChild t.nodes.size u.nodes.size =
      ((t.graft (.node l (ds ++ [c]))).1, u.nodes.size) := by
  intro u
  have hlt : t.nodes.size < u.nodes.size := by
    rw [size_graft]
    exact Nat.lt_add_of_pos_right (Rose.size_pos _)
  have havailable := available_of_ready (ready_graft (h.graft (.node l ds)) c hlt)
  refine Prod.ext ?_ ?_
  · rw [pushChild, insertChild_fst, havailable, Nat.min_self, link_graft, Tree.touch,
      h.isAttached_graft_of_le _ (Nat.le_refl _), if_neg Bool.false_ne_true]
  · show ((u.graft c).1.available t.nodes.size u.nodes.size).2 = _
    rw [havailable]

/-- Copies of several nodes, linked one after the other. -/
theorem foldl_linkLast (l : Label) (copy : Tree → NodeId → Tree × NodeId)
    (shown : NodeId → Constituent) (cs : List NodeId)
    (hcopy : ∀ u, Grown t u → ∀ c ∈ cs, copy u c = u.graft (shown c)) (ds : List Constituent) :
    cs.foldl (fun u c => linkLast t.nodes.size (copy u c)) (t.graft (.node l ds)).1 =
      (t.graft (.node l (ds ++ cs.map shown))).1 := by
  induction cs generalizing ds with
  | nil => rw [List.map_nil, List.append_nil]; rfl
  | cons c cs ih =>
    have hfirst := hcopy _ (.single t (.node l ds)) c (List.mem_cons_self ..)
    rw [List.foldl_cons, hfirst, linkLast, snd_graft, link_graft,
      ih fun u hu d hd => hcopy u hu d (List.mem_cons_of_mem c hd)]
    rw [List.append_assoc, List.map_cons, List.singleton_append]

/-- **A copy of a subtree is made node by node**: a new node, and below it a copy of every child. -/
theorem WellFormed.copySubtree_eq (h : t.WellFormed) (n : NodeId) :
    t.copySubtree n = ((t.children n).foldl
      (fun u c => linkLast t.nodes.size (u.copySubtree c)) (t.addNode (t.label n)).1,
      t.nodes.size) := by
  have hsame : ∀ u, Grown t u → ∀ c ∈ t.children n,
      u.copySubtree c = u.graft (t.constituent c) := by
    intro u hu c hc
    rw [copySubtree, hu.constituent_eq h (h.child_lt_size hc)]
  have hcopies := foldl_linkLast (t.label n) copySubtree t.constituent (t.children n) hsame []
  rw [addNode, hcopies, List.nil_append, ← h.constituent_eq]
  rfl

/-- The same for a copy of a subtree of another tree. -/
theorem WellFormed.importSubtree_eq {other : Tree} (h : other.WellFormed) (t : Tree) (n : NodeId) :
    t.importSubtree other n = ((other.children n).foldl
      (fun u c => linkLast t.nodes.size (u.importSubtree other c)) (t.addNode (other.label n)).1,
      t.nodes.size) := by
  have hcopies := foldl_linkLast (t := t) (other.label n) (fun u c => u.importSubtree other c)
    other.constituent (other.children n) (fun _ _ _ _ => rfl) []
  rw [addNode, hcopies, List.nil_append, ← h.constituent_eq]
  rfl

end Tree

end Constituency
