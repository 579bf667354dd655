import Constituency.Proofs.Renumbering.Tree
import Constituency.Proofs.Tree.Requests

/-!
# Edits of renumbered arenas

A request carried out in a renumbered arena, on the nodes that correspond to those it names, makes
corresponding trees and gives corresponding answers (`Twins.request`). Every edit changes single
nodes or adds nodes at the end, and these are the two things that have to be looked at in the arrays
(`Renumbered.modify`, `Renumbered.graft`). The rest reads something off the tree between two such
changes: whether a node has to be copied, what the copy is, whether the change counts.

While children are being replaced the arena is not well-formed, but what is read off it there can be
read off arenas that are: whether a node must be copied, off the one that already lists what has
been placed; what stands below a node, off the one in which the children of the parent are released.
-/

namespace Constituency

variable {f : NodeId → NodeId} {k : Nat}

namespace Rose

theorem roots_renumber {base base' : NodeId} (hf : ∀ i, f (base + i) = base' + i)
    (cs : List Constituent) : roots base' cs = (roots base cs).map f := by
  induction cs generalizing base base' with
  | nil => rfl
  | cons c cs ih =>
    rw [roots, roots, List.map_cons]
    congr 1
    · exact (hf 0).symm
    · exact ih fun i => by rw [Nat.add_assoc, hf, Nat.add_assoc]

mutual

/-- Layouts at corresponding places correspond. -/
theorem layout_renumber {base base' : NodeId} (hf : ∀ i, f (base + i) = base' + i)
    (parent : Option NodeId) : ∀ c : Constituent,
    c.layout base' (parent.map f) = (c.layout base parent).map (Node.renumber f)
  | .node l cs => by
    have hnext : ∀ i, f (base + 1 + i) = base' + 1 + i := fun i => by
      rw [Nat.add_assoc, hf, Nat.add_assoc]
    rw [layout, layout, List.map_cons, roots_renumber hnext]
    congr 1
    exact layoutAll_renumber hnext (hf 0) cs

theorem layoutAll_renumber {base base' : NodeId} (hf : ∀ i, f (base + i) = base' + i)
    {parent parent' : NodeId} (hparent : f parent = parent') : ∀ cs : List Constituent,
    layoutAll base' parent' cs = (layoutAll base parent cs).map (Node.renumber f)
  | [] => rfl
  | c :: cs => by
    have hnext : ∀ i, f (base + c.size + i) = base' + c.size + i := fun i => by
      rw [Nat.add_assoc, hf, Nat.add_assoc]
    have hfirst := layout_renumber hf (some parent) c
    rw [Option.map_some, hparent] at hfirst
    rw [layoutAll, layoutAll, List.map_append, hfirst, layoutAll_renumber hnext hparent cs]

end

end Rose

namespace Tree

variable {t u : Tree}

theorem WellFormed.of_touch {n : NodeId} (h : (t.touch n).WellFormed) : t.WellFormed :=
  h.of_sameLinks ⟨by rw [nodes_touch], root_touch t n, parent_touch t n, children_touch t n⟩

/-! ## Changing single nodes and adding nodes -/

namespace Renumbered

/-- **Corresponding changes at corresponding nodes.** -/
theorem modify (h : Renumbered f k t u) {g g' : Node → Node} (id : NodeId)
    (hg : ∀ n, g' (n.renumber f) = (g n).renumber f) :
    Renumbered f k { t with nodes := t.nodes.modify id g }
      { u with nodes := u.nodes.modify (f id) g' } := by
  refine ⟨h.injective, ?_, ?_, h.root, h.revision⟩
  · intro n
    simp only [Array.getElem?_modify, h.injective.eq_iff, h.node]
    split
    · cases t.nodes[n]? with
      | none => rfl
      | some x => exact congrArg some (hg x)
    · rfl
  · simpa using h.fresh

theorem setLabel (h : Renumbered f k t u) (id : NodeId) (l : Label) :
    Renumbered f k (t.setLabel id l) (u.setLabel (f id) l) :=
  h.modify id fun _ => rfl

theorem setParent (h : Renumbered f k t u) (id : NodeId) (p : Option NodeId) :
    Renumbered f k (t.setParent id p) (u.setParent (f id) (p.map f)) :=
  h.modify id fun _ => rfl

theorem setChildren (h : Renumbered f k t u) (id : NodeId) (cs : List NodeId) :
    Renumbered f k (t.setChildren id cs) (u.setChildren (f id) (cs.map f)) :=
  h.modify id fun _ => rfl

/-- **The same tree added to both arenas** gets corresponding numbers. -/
theorem graft (h : Renumbered f k t u) (c : Constituent) :
    Renumbered f k (t.graft c).1 (u.graft c).1 := by
  refine ⟨h.injective, ?_, ?_, h.root, h.revision⟩
  · intro n
    by_cases hn : n < t.nodes.size
    · rw [getElem?_graft t c hn, getElem?_graft u c ((h.lt_size_iff n).mpr hn), h.node]
    · -- the `i`th of the new nodes, in both arenas
      obtain ⟨i, rfl⟩ := Nat.exists_eq_add_of_le (Nat.not_lt.mp hn)
      have hlayout := Rose.layout_renumber h.fresh none c
      rw [Option.map_none] at hlayout
      rw [h.fresh]
      simp only [Tree.graft, Array.getElem?_append_right (Nat.le_add_right ..),
        Nat.add_sub_cancel_left, List.getElem?_toArray]
      rw [hlayout, List.getElem?_map]
  · intro i
    rw [size_graft, size_graft, Nat.add_assoc, h.fresh, Nat.add_assoc]

theorem snd_graft (h : Renumbered f k t u) (c : Constituent) :
    (u.graft c).2 = f (t.graft c).2 := by
  rw [Tree.snd_graft, Tree.snd_graft]
  exact (h.fresh 0).symm

/-- Two changes that are counted, or not, because corresponding nodes are attached or not. -/
theorem touch (h : Renumbered f k t u) {id : NodeId} (ht : (t.touch id).WellFormed)
    (hu : (u.touch (f id)).WellFormed) : Twins f k (t.touch id) (u.touch (f id)) := by
  refine ⟨?_, ht, hu⟩
  -- counting changes no links, so the arenas were well-formed before
  have hcounted := (Twins.mk h ht.of_touch hu.of_touch).isAttached id
  unfold Tree.touch
  rw [hcounted]
  split
  · exact ⟨h.injective, h.node, h.fresh, h.root,
      show u.revision + 1 = t.revision + 1 + k by rw [h.revision, Nat.add_right_comm]⟩
  · exact h

theorem releaseChildren (h : Renumbered f k t u) (p : NodeId) :
    Renumbered f k (t.releaseChildren p) (u.releaseChildren (f p)) := by
  -- one parent link after the other
  have hall : ∀ (cs : List NodeId) {t u : Tree}, Renumbered f k t u →
      Renumbered f k (cs.foldl (fun t c => t.setParent c none) t)
        ((cs.map f).foldl (fun t c => t.setParent c none) u) := by
    intro cs
    induction cs with
    | nil => exact fun h => h
    | cons c cs ih => exact fun h => ih (h.setParent c none)
  have hreleased := hall (t.children p) h
  rw [← h.children] at hreleased
  exact hreleased.setChildren p []

theorem link (h : Renumbered f k t u) (p : NodeId) (i : Nat) (c : NodeId) :
    Renumbered f k (t.link p i c) (u.link (f p) i (f c)) := by
  unfold Tree.link
  rw [h.children, ← List.map_insertIdx]
  exact (h.setChildren p _).setParent c (some p)

theorem unlink (h : Renumbered f k t u) (p id : NodeId) :
    Renumbered f k (t.unlink p id) (u.unlink (f p) (f id)) := by
  unfold Tree.unlink
  rw [h.children, filter_ne_map h.injective]
  exact (h.setChildren p _).setParent id none

end Renumbered

/-! ## Copying and inserting -/

namespace Twins

theorem mustCopy (h : Twins f k t u) (p c : NodeId) :
    u.mustCopy (f p) (f c) = t.mustCopy p c := by
  rw [Tree.mustCopy, Tree.mustCopy, h.parent, Option.isSome_map, h.injective.beq_eq, h.isRoot,
    h.dominates]

theorem copySubtree (h : Twins f k t u) (n : NodeId) :
    Renumbered f k (t.copySubtree n).1 (u.copySubtree (f n)).1 ∧
      (u.copySubtree (f n)).2 = f (t.copySubtree n).2 := by
  rw [Tree.copySubtree, Tree.copySubtree, h.constituent]
  exact ⟨h.graft _, h.snd_graft _⟩

theorem available (h : Twins f k t u) (p c : NodeId) :
    Renumbered f k (t.available p c).1 (u.available (f p) (f c)).1 ∧
      (u.available (f p) (f c)).2 = f (t.available p c).2 := by
  unfold Tree.available
  rw [h.mustCopy]
  split
  · exact h.copySubtree c
  · exact ⟨h.toRenumbered, rfl⟩

theorem insertChild (h : Twins f k t u) {p c : NodeId} (i : Nat) (hp : p < t.nodes.size)
    (hc : c < t.nodes.size) :
    Renumbered f k (t.insertChild p i c).1 (u.insertChild (f p) i (f c)).1 ∧
      (u.insertChild (f p) i (f c)).2 = f (t.insertChild p i c).2 := by
  obtain ⟨hnodes, hnumber⟩ := h.available p c
  refine ⟨?_, hnumber⟩
  have ht := h.source.insertChild i hp hc
  have hu := h.target.insertChild i ((h.lt_size_iff p).mpr hp) ((h.lt_size_iff c).mpr hc)
  rw [insertChild_fst] at ht hu ⊢
  rw [insertChild_fst]
  rw [hnumber, hnodes.children, List.length_map] at hu ⊢
  exact ((hnodes.link p _ _).touch ht hu).toRenumbered

end Twins

/-! ## Replacing children -/

theorem belowUpTo_congr (h : ∀ n, u.children n = t.children n) :
    ∀ (k : Nat) (n : NodeId), u.belowUpTo k n = t.belowUpTo k n
  | 0, _ => rfl
  | k + 1, n => by
    rw [belowUpTo, belowUpTo, h]
    congr 1
    exact List.map_congr_left fun c _ => belowUpTo_congr h k c

/-- While the parent lists no children, those that are placed are not below it. -/
theorem constituent_releaseChildren {p : NodeId} {placed : List NodeId}
    (hp : t.children p = []) (n : NodeId) :
    ((t.setChildren p placed).releaseChildren p).constituent n = t.constituent n := by
  have hchildren : ∀ n,
      ((t.setChildren p placed).releaseChildren p).children n = t.children n := by
    intro n
    rw [children_releaseChildren, children_setChildren]
    split
    · rename_i hpn
      rw [← hpn, hp]
    · rename_i hpn
      rw [if_neg fun hboth => hpn hboth.1]
  have hlabel : ((t.setChildren p placed).releaseChildren p).label = t.label := by
    funext n
    rw [label_releaseChildren, label_setChildren]
  rw [Tree.constituent, Tree.constituent, below, below, size_releaseChildren, size_setChildren,
    hlabel, belowUpTo_congr hchildren]

/-- Two trees whose children of one node are being replaced: those placed so far name it as their
parent, and would make well-formed arenas if it listed them. -/
structure Placing (f : NodeId → NodeId) (k : Nat) (p : NodeId) (placed : List NodeId)
    (t u : Tree) : Prop extends Renumbered f k t u where
  known : p < t.nodes.size
  unlisted : t.children p = []
  source : (t.setChildren p placed).WellFormed
  target : (u.setChildren (f p) (placed.map f)).WellFormed

namespace Placing

variable {p : NodeId} {placed : List NodeId}

theorem twins (h : Placing f k p placed t u) :
    Twins f k (t.setChildren p placed) (u.setChildren (f p) (placed.map f)) :=
  ⟨h.toRenumbered.setChildren p placed, h.source, h.target⟩

theorem constituent (h : Placing f k p placed t u) (n : NodeId) :
    u.constituent (f n) = t.constituent n := by
  have hunlisted : u.children (f p) = [] := by
    rw [h.children, h.unlisted, List.map_nil]
  have hreleased : Twins f k ((t.setChildren p placed).releaseChildren p)
      ((u.setChildren (f p) (placed.map f)).releaseChildren (f p)) :=
    ⟨h.twins.releaseChildren p, h.source.releaseChildren p, h.target.releaseChildren (f p)⟩
  rw [← constituent_releaseChildren hunlisted, ← constituent_releaseChildren h.unlisted]
  exact hreleased.constituent n

theorem place (h : Placing f k p placed t u) (c : NodeId) :
    Renumbered f k (t.place p placed c).1 (u.place (f p) (placed.map f) (f c)).1 ∧
      (u.place (f p) (placed.map f) (f c)).2 = f (t.place p placed c).2 := by
  -- the copying rule looks at parents and the root, and not at what `p` lists
  have hmust : u.mustCopy (f p) (f c) = t.mustCopy p c := by
    rw [← mustCopy_setChildren t p c p placed, ← mustCopy_setChildren u _ _ (f p) (placed.map f)]
    exact h.twins.mustCopy p c
  unfold Tree.place Tree.available Tree.copySubtree
  rw [contains_map h.injective, hmust, h.constituent]
  split
  · exact ⟨h.graft _, h.snd_graft _⟩
  · split
    · exact ⟨h.graft _, h.snd_graft _⟩
    · exact ⟨h.toRenumbered, rfl⟩

/-- One more node placed. -/
theorem step (h : Placing f k p placed t u) {c : NodeId} (hc : c < t.nodes.size) :
    Placing f k p (placed ++ [(t.place p placed c).2])
      ((t.place p placed c).1.setParent (t.place p placed c).2 (some p))
      ((u.place (f p) (placed.map f) (f c)).1.setParent
        (u.place (f p) (placed.map f) (f c)).2 (some (f p))) := by
  obtain ⟨hnodes, hnumber⟩ := h.place c
  obtain ⟨hwf, hready, hsize⟩ := place_ready h.source h.known hc
  obtain ⟨hwf', hready', hsize'⟩ := place_ready h.target ((h.lt_size_iff p).mpr h.known)
    ((h.lt_size_iff c).mpr hc)
  have hknown := Nat.lt_of_lt_of_le h.known hsize
  have hknown' := Nat.lt_of_lt_of_le ((h.lt_size_iff p).mpr h.known) hsize'
  refine ⟨?_, ?_, ?_, place_wellFormed hwf hknown hready, ?_⟩
  · rw [hnumber]
    exact hnodes.setParent _ (some p)
  · rwa [size_setParent]
  · rw [children_setParent]
    rcases place_cases t p placed c with hcopy | ⟨hmove, _⟩
    · rw [hcopy, children_graft t _ h.known, h.unlisted]
    · rw [hmove, h.unlisted]
  · have hplaced := place_wellFormed hwf' hknown' hready'
    rw [hnumber] at hplaced ⊢
    rwa [List.map_append, List.map_singleton]

theorem placeAll (cs : List NodeId) (h : Placing f k p placed t u)
    (hcs : ∀ c ∈ cs, c < t.nodes.size) :
    Renumbered f k (t.placeAll p placed cs).1 (u.placeAll (f p) (placed.map f) (cs.map f)).1 ∧
      (u.placeAll (f p) (placed.map f) (cs.map f)).2 = (t.placeAll p placed cs).2.map f := by
  induction cs generalizing placed t u with
  | nil => exact ⟨h.toRenumbered, rfl⟩
  | cons c cs ih =>
    have hc := hcs c (List.mem_cons_self ..)
    have hsize := (place_ready h.source h.known hc).2.2
    have hrest := ih (h.step hc) fun x hx => by
      rw [size_setParent]
      exact Nat.lt_of_lt_of_le (hcs x (List.mem_cons_of_mem c hx)) hsize
    rw [List.map_append, List.map_singleton, ← (h.place c).2] at hrest
    rw [List.map_cons, placeAll_cons, placeAll_cons]
    exact hrest

end Placing

namespace Twins

theorem replaceChildren (h : Twins f k t u) {p : NodeId} {cs : List NodeId}
    (hp : p < t.nodes.size) (hcs : ∀ c ∈ cs, c < t.nodes.size) :
    Renumbered f k (t.replaceChildren p cs).1 (u.replaceChildren (f p) (cs.map f)).1 ∧
      (u.replaceChildren (f p) (cs.map f)).2 = (t.replaceChildren p cs).2.map f := by
  have hp' := (h.lt_size_iff p).mpr hp
  have hcs' : ∀ c ∈ cs.map f, c < u.nodes.size := by
    intro c hc
    obtain ⟨x, hx, rfl⟩ := List.mem_map.mp hc
    exact (h.lt_size_iff x).mpr (hcs x hx)
  have hstart : Placing f k p [] (t.releaseChildren p) (u.releaseChildren (f p)) :=
    ⟨h.releaseChildren p, by rwa [size_releaseChildren],
      by rw [children_releaseChildren, if_pos rfl], h.source.setChildren_releaseChildren p,
      h.target.setChildren_releaseChildren (f p)⟩
  obtain ⟨hnodes, hplaced⟩ := hstart.placeAll cs fun c hc => by
    rw [size_releaseChildren]
    exact hcs c hc
  refine ⟨?_, hplaced⟩
  have ht := h.source.replaceChildren hp hcs
  have hu := h.target.replaceChildren hp' hcs'
  rw [replaceChildren_fst] at ht hu ⊢
  rw [replaceChildren_fst]
  rw [List.map_nil] at hnodes hplaced
  rw [hplaced] at hu ⊢
  exact ((hnodes.setChildren p _).touch ht hu).toRenumbered

/-! ## Detaching, and the root -/

theorem detach (h : Twins f k t u) (id : NodeId) :
    Renumbered f k (t.detach id) (u.detach (f id)) := by
  have ht := h.source.detach id
  have hu := h.target.detach (f id)
  cases hp : t.parent id with
  | some p =>
    have hp' : u.parent (f id) = some (f p) := by rw [h.parent, hp, Option.map_some]
    rw [detach_of_parent hp] at ht ⊢
    rw [detach_of_parent hp'] at hu ⊢
    exact ((h.unlink p id).touch ht hu).toRenumbered
  | none =>
    have hp' : u.parent (f id) = none := by rw [h.parent, hp, Option.map_none]
    rw [detach_of_parent_none hp, detach_of_parent_none hp', h.isRoot]
    split
    · exact ⟨h.injective, h.node, h.fresh, rfl,
        show u.revision + 1 = t.revision + 1 + k by rw [h.revision, Nat.add_right_comm]⟩
    · exact h.toRenumbered

theorem setRoot (h : Twins f k t u) (id : Option NodeId) :
    Renumbered f k (t.setRoot id) (u.setRoot (id.map f)) := by
  have hdetached : Renumbered f k (id.elim t t.detach) ((id.map f).elim u u.detach) := by
    cases id with
    | none => exact h.toRenumbered
    | some id => exact h.detach id
  have hcount : ∀ {t u : Tree}, Renumbered f k t u →
      Renumbered f k { t with root := id, revision := t.revision + 1 }
        { u with root := id.map f, revision := u.revision + 1 } :=
    fun {t u} h => ⟨h.injective, h.node, h.fresh, rfl,
      show u.revision + 1 = t.revision + 1 + k by rw [h.revision, Nat.add_right_comm]⟩
  cases id with
  | none => exact hcount hdetached
  | some id => exact hcount hdetached

end Twins

/-! ## Requests -/

/-- The request for the corresponding nodes. -/
def Request.renumber (f : NodeId → NodeId) : Request → Request
  | .addNode l => .addNode l
  | .pushChild p c => .pushChild (f p) (f c)
  | .insertChild p i c => .insertChild (f p) i (f c)
  | .replaceChildren p cs => .replaceChildren (f p) (cs.map f)
  | .detach n => .detach (f n)
  | .setRoot n => .setRoot (n.map f)
  | .setLabel n l => .setLabel (f n) l
  | .copySubtree n => .copySubtree (f n)
  | .importSubtree other n => .importSubtree other n

/-- The answer with the corresponding nodes. -/
def Answer.renumber (f : NodeId → NodeId) : Answer → Answer
  | .done => .done
  | .node n => .node (f n)
  | .nodes ns => .nodes (ns.map f)

theorem Renumbered.isKnown (h : Renumbered f k t u) (r : Request) :
    (r.renumber f).isKnown u = r.isKnown t := by
  cases r with
  | addNode l => rfl
  | pushChild p c => simp only [Request.renumber, Request.isKnown, h.contains]
  | insertChild p i c => simp only [Request.renumber, Request.isKnown, h.contains]
  | replaceChildren p cs =>
    have hall : (cs.map f).all u.contains = cs.all t.contains := by
      rw [List.all_map]
      congr 1
      exact funext h.contains
    simp only [Request.renumber, Request.isKnown, h.contains, hall]
  | detach n => exact h.contains n
  | setRoot n =>
    cases n with
    | none => rfl
    | some n => exact h.contains n
  | setLabel n l => exact h.contains n
  | copySubtree n => exact h.contains n
  | importSubtree other n => rfl

namespace Twins

theorem perform (h : Twins f k t u) {r : Request} (hr : r.isKnown t = true) :
    Renumbered f k (t.perform r).1 (u.perform (r.renumber f)).1 ∧
      (u.perform (r.renumber f)).2 = (t.perform r).2.renumber f := by
  -- an answer is the node, or the list of nodes, that the edit gives
  have hnode : ∀ {x y : Tree × NodeId}, Renumbered f k x.1 y.1 ∧ y.2 = f x.2 →
      Renumbered f k x.1 y.1 ∧ Answer.node y.2 = (Answer.node x.2).renumber f :=
    fun hxy => ⟨hxy.1, congrArg Answer.node hxy.2⟩
  cases r with
  | addNode l => exact hnode ⟨h.graft _, h.snd_graft _⟩
  | pushChild p c =>
    simp only [Request.isKnown, Bool.and_eq_true, contains_eq_true] at hr
    have hlast : u.pushChild (f p) (f c) = u.insertChild (f p) (t.children p).length (f c) := by
      rw [Tree.pushChild, h.children, List.length_map]
    have hinserted := h.insertChild (t.children p).length hr.1 hr.2
    rw [← hlast] at hinserted
    exact hnode hinserted
  | insertChild p i c =>
    simp only [Request.isKnown, Bool.and_eq_true, contains_eq_true] at hr
    exact hnode (h.insertChild i hr.1 hr.2)
  | replaceChildren p cs =>
    simp only [Request.isKnown, Bool.and_eq_true, List.all_eq_true, contains_eq_true] at hr
    obtain ⟨hnodes, hplaced⟩ := h.replaceChildren hr.1 hr.2
    exact ⟨hnodes, congrArg Answer.nodes hplaced⟩
  | detach n => exact ⟨h.detach n, rfl⟩
  | setRoot n => exact ⟨h.setRoot n, rfl⟩
  | setLabel n l => exact ⟨h.setLabel n l, rfl⟩
  | copySubtree n => exact hnode (h.copySubtree n)
  | importSubtree other n => exact hnode ⟨h.graft _, h.snd_graft _⟩

/-- **Corresponding requests make corresponding trees and give corresponding answers**, whether they
are carried out or refused. -/
theorem request (h : Twins f k t u) (r : Request) :
    Twins f k (t.request r).1 (u.request (r.renumber f)).1 ∧
      (u.request (r.renumber f)).2 = (t.request r).2.map (Answer.renumber f) := by
  suffices hboth : Renumbered f k (t.request r).1 (u.request (r.renumber f)).1 ∧
      (u.request (r.renumber f)).2 = (t.request r).2.map (Answer.renumber f) from
    ⟨⟨hboth.1, h.source.request r, h.target.request _⟩, hboth.2⟩
  unfold Tree.request
  rw [h.isKnown]
  split
  · rename_i hr
    obtain ⟨hnodes, hanswer⟩ := h.perform hr
    exact ⟨hnodes, congrArg some hanswer⟩
  · refine ⟨?_, rfl⟩
    cases r with
    | replaceChildren p cs => exact h.releaseChildren p
    | _ => exact h.toRenumbered

end Twins

end Tree

end Constituency
