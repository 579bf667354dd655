import Mathlib.Data.List.Nodup
import Constituency.Proofs.Surgery.Outcome
import Constituency.Proofs.Tree.Places

/-!
# An edit is refused before its first step

Edits take one, two or three steps, and each step is a request. `Edit.Sound`
says what all of them have in common: an edit that is carried out comes to a
sequence of requests with known nodes, and an edit that is refused has left the
tree exactly as it was, for a reason of its own and never because a node was
missing.

For an edit of several steps the second half means that after the first step
nothing can go wrong. The steps that could are those that put nodes in the place
of another; what has to be shown is that the steps before leave that other node
in its place.
-/

namespace Constituency.Edit

open Constituency.Tree

variable {α : Type} {t : Tree}

/-- Requests with known nodes if it is carried out; the same tree if it is refused. -/
def Sound (x : Edit α) (t : Tree) : Prop :=
  Ends x t (fun _ u => Edits t u) fun e u => u = t ∧ e ≠ .unknownNode

/-! ## One request -/

/-- A request with known nodes is never refused. -/
theorem ends_perform {r : Request} {done : Unit → Tree → Prop} {failed : Refusal → Tree → Prop}
    (hr : r.isKnown t = true) (h : done () (t.perform r).1) : Ends (perform r) t done failed := by
  have hrequest : t.request r = ((t.perform r).1, some (t.perform r).2) := by
    rw [request, if_pos hr]
  unfold perform
  refine Ends.get_bind ?_
  rw [hrequest]
  exact h

theorem isKnown_replaceChildren {id : NodeId} {cs : List NodeId} (hid : id < t.nodes.size)
    (hcs : ∀ c ∈ cs, c < t.nodes.size) : (Request.replaceChildren id cs).isKnown t = true := by
  simp only [Request.isKnown, Bool.and_eq_true, List.all_eq_true, contains_eq_true]
  exact ⟨hid, hcs⟩

theorem isKnown_insertChild {parent id : NodeId} (hparent : parent < t.nodes.size)
    (hid : id < t.nodes.size) (index : Nat) :
    (Request.insertChild parent index id).isKnown t = true := by
  simp only [Request.isKnown, Bool.and_eq_true, contains_eq_true]
  exact ⟨hparent, hid⟩

theorem ends_replaceChildren {id : NodeId} {cs : List NodeId} {done : Unit → Tree → Prop}
    {failed : Refusal → Tree → Prop} (hid : id < t.nodes.size) (hcs : ∀ c ∈ cs, c < t.nodes.size)
    (h : done () (t.replaceChildren id cs).1) : Ends (replaceChildren id cs) t done failed :=
  ends_perform (isKnown_replaceChildren hid hcs) h

theorem edits_replaceChildren {id : NodeId} {cs : List NodeId} (hid : id < t.nodes.size)
    (hcs : ∀ c ∈ cs, c < t.nodes.size) : Edits t (t.replaceChildren id cs).1 :=
  .single (isKnown_replaceChildren hid hcs)

theorem ends_takeChildren {id : NodeId} {done : List NodeId → Tree → Prop}
    {failed : Refusal → Tree → Prop} (hid : id < t.nodes.size)
    (h : done (t.children id) (t.replaceChildren id []).1) :
    Ends (takeChildren id) t done failed := by
  refine Ends.get_bind ?_
  have hstep : Ends (replaceChildren id []) t (fun _ u => u = (t.replaceChildren id []).1) failed :=
    ends_replaceChildren hid (by simp) rfl
  refine Ends.bind hstep ?_ fun _ _ h => h
  intro _ u hu
  subst hu
  exact Ends.of_pure h

theorem detach_sound {id : NodeId} (hid : id < t.nodes.size) : Sound (detach id) t :=
  ends_perform (contains_eq_true.mpr hid) (.single (contains_eq_true.mpr hid))

theorem relabel_sound {id : NodeId} (hid : id < t.nodes.size) (l : Label) :
    Sound (relabel id l) t :=
  ends_perform (r := .setLabel id l) (contains_eq_true.mpr hid) (.single (contains_eq_true.mpr hid))

theorem coindex_sound {id : NodeId} (hid : id < t.nodes.size) (index : Nat) :
    Sound (coindex index id) t :=
  Ends.get_bind (relabel_sound hid _)

theorem insert_sound {parent id : NodeId} (hparent : parent < t.nodes.size)
    (hid : id < t.nodes.size) (index : Nat) : Sound (insert parent index id) t := by
  have hr := isKnown_insertChild hparent hid index
  exact ends_perform hr (.single hr)

/-! ## Several requests -/

/-- An edit that cannot be refused may be followed by others that cannot. -/
theorem Sound.after {β : Type} {x : Edit α} {f : α → Edit β} (done : α → Tree → Prop)
    (hx : Ends x t (fun a u => Edits t u ∧ done a u) fun e u => u = t ∧ e ≠ .unknownNode)
    (hf : ∀ a u, Edits t u → done a u → Ends (f a) u (fun _ v => Edits u v) fun _ _ => False) :
    Sound (x >>= f) t := by
  refine Ends.bind hx ?_ fun _ _ h => h
  intro a u h
  exact (hf a u h.1 h.2).mono (fun _ v hv => h.1.trans hv) fun _ _ h => h.elim

/-- A request with known nodes may be followed by edits that cannot be refused. -/
theorem Sound.after_request {β : Type} {r : Request} {f : Unit → Edit β}
    (hr : r.isKnown t = true)
    (hf : ∀ u, Edits t u → Ends (f ()) u (fun _ v => Edits u v) fun _ _ => False) :
    Sound (perform r >>= f) t :=
  Sound.after (fun _ _ => True) (ends_perform hr ⟨.single hr, trivial⟩) fun _ u hu _ => hf u hu

theorem move_sound {id parent : NodeId} (h : t.WellFormed) (hid : id < t.nodes.size)
    (hparent : parent < t.nodes.size) (index : Nat) : Sound (move id parent index) t := by
  have hr : (Request.detach id).isKnown t = true := contains_eq_true.mpr hid
  refine Sound.after_request hr ?_
  intro u hu
  have hsize := (h.edits hu).2
  have hins := isKnown_insertChild (Nat.lt_of_lt_of_le hparent hsize)
    (Nat.lt_of_lt_of_le hid hsize) index
  exact ends_perform hins (.single hins)

theorem ends_detachChildless (ids : List NodeId) (h : t.WellFormed)
    (hids : ∀ id ∈ ids, id < t.nodes.size) :
    Ends (detachChildless ids) t (fun _ u => Edits t u) fun _ _ => False := by
  induction ids generalizing t with
  | nil => exact Ends.of_pure (.refl t)
  | cons id ids ih =>
    refine Ends.get_bind ?_
    split
    · have hr : (Request.detach id).isKnown t = true :=
        contains_eq_true.mpr (hids id (List.mem_cons_self ..))
      have hstep : Ends (detach id) t (fun _ u => u = (t.perform (.detach id)).1)
          fun _ _ => False :=
        ends_perform hr rfl
      refine Ends.bind hstep ?_ fun _ _ h => h
      intro _ u hu
      subst hu
      have hrest := ih (h.perform hr) fun x hx =>
        Nat.lt_of_lt_of_le (hids x (List.mem_cons_of_mem id hx)) (h.size_perform hr)
      exact hrest.mono (fun _ v hv => (Edits.single hr).trans hv) fun _ _ h => h
    · exact Ends.of_pure (.refl t)

theorem prune_sound {id : NodeId} (h : t.WellFormed) (hid : id < t.nodes.size) :
    Sound (prune id) t := by
  have hr : (Request.detach id).isKnown t = true := contains_eq_true.mpr hid
  refine Ends.get_bind ?_
  refine Sound.after_request hr ?_
  intro u hu
  obtain ⟨hwf, hsize⟩ := h.edits hu
  exact ends_detachChildless _ hwf fun a ha =>
    Nat.lt_of_lt_of_le (h.under_lt_size (h.mem_ancestors_iff.mp ha)) hsize

/-! ## Putting nodes in the place of another -/

/-- What putting nodes in the place of one comes to. -/
inductive InPlace (t : Tree) (old : NodeId) : List NodeId → Tree → Prop where
  | child {p : NodeId} {before after nodes : List NodeId} : t.parent old = some p →
    (∀ c ∈ before ++ after, c ∈ t.children p ∧ c ≠ old) →
    InPlace t old nodes (t.replaceChildren p (before ++ nodes ++ after)).1
  | root {n : NodeId} : t.parent old = none → t.root = some old →
    InPlace t old [n] (t.setRoot (some n))

/-- The children of a node without the one at an index. -/
theorem mem_children_around (h : t.WellFormed) {p old : NodeId} {i : Nat}
    (hi : (t.children p).idxOf? old = some i) {c : NodeId}
    (hc : c ∈ (t.children p).take i ++ (t.children p).drop (i + 1)) :
    c ∈ t.children p ∧ c ≠ old := by
  obtain ⟨hlt, hold, _⟩ := List.idxOf?_eq_some_iff.mp hi
  have hsplit : t.children p = (t.children p).take i ++ old :: (t.children p).drop (i + 1) := by
    rw [← hold, ← List.drop_eq_getElem_cons hlt, List.take_append_drop]
  have hnodup := h.children_nodup p
  rw [hsplit, List.nodup_middle, List.nodup_cons] at hnodup
  refine ⟨?_, fun heq => hnodup.1 (heq ▸ hc)⟩
  rw [hsplit, List.mem_append, List.mem_cons]
  rcases List.mem_append.mp hc with hc | hc
  · exact .inl hc
  · exact .inr (.inr hc)

theorem ends_putInPlace {old : NodeId} {nodes : List NodeId} (h : t.WellFormed)
    (hnodes : ∀ n ∈ nodes, n < t.nodes.size) :
    Ends (putInPlace old nodes) t (fun _ u => Edits t u ∧ InPlace t old nodes u) fun e u =>
      u = t ∧ e ≠ .unknownNode ∧ t.parent old = none ∧ (t.root = some old → nodes.length ≠ 1) := by
  refine Ends.get_bind ?_
  cases hp : t.parent old with
  | some p =>
    have hindex := h.childIndex_isSome hp
    obtain ⟨i, hi⟩ := Option.isSome_iff_exists.mp hindex
    rw [hi]
    dsimp only
    rw [childIndex, hp, Option.bind_some] at hi
    have haround := fun c hc => mem_children_around h hi (c := c) hc
    have hpsize := h.parent_lt_size hp
    have hcs : ∀ c ∈ (t.children p).take i ++ nodes ++ (t.children p).drop (i + 1),
        c < t.nodes.size := by
      intro c hc
      rcases List.mem_append.mp hc with hc | hc
      · rcases List.mem_append.mp hc with hc | hc
        · exact h.child_lt_size (haround c (List.mem_append_left _ hc)).1
        · exact hnodes c hc
      · exact h.child_lt_size (haround c (List.mem_append_right _ hc)).1
    exact ends_replaceChildren hpsize hcs ⟨edits_replaceChildren hpsize hcs, .child hp haround⟩
  | none =>
    -- a node without a parent has a place only as the root
    dsimp only
    split
    · rename_i hroot
      refine Ends.of_throw ⟨rfl, by simp, rfl, ?_⟩
      intro hr
      rw [isRoot, hr] at hroot
      simp at hroot
    · rename_i hroot
      have hroot : t.root = some old := by simpa [isRoot] using hroot
      split
      · rename_i n
        have hr : (Request.setRoot (some n)).isKnown t = true :=
          contains_eq_true.mpr (hnodes n (List.mem_singleton_self n))
        exact ends_perform hr ⟨.single hr, .root hp hroot⟩
      · rename_i hne
        refine Ends.of_throw ⟨rfl, by simp, rfl, ?_⟩
        intro _ hlen
        obtain ⟨n, rfl⟩ := List.length_eq_one_iff.mp hlen
        exact hne n rfl

theorem putInPlace_sound {old : NodeId} {nodes : List NodeId} (h : t.WellFormed)
    (hnodes : ∀ n ∈ nodes, n < t.nodes.size) : Sound (putInPlace old nodes) t :=
  (ends_putInPlace h hnodes).mono (fun _ _ h => h.1) fun _ _ h => ⟨h.1, h.2.1⟩

/-- **A node that has a place gives it to one other node without fail**, and a child gives it to any
number. -/
theorem ends_putInPlace_of_hasPlace {old : NodeId} {nodes : List NodeId} (h : t.WellFormed)
    (hnodes : ∀ n ∈ nodes, n < t.nodes.size) (hplace : t.HasPlace old)
    (hroot : t.root = some old → nodes.length = 1) :
    Ends (putInPlace old nodes) t (fun _ u => Edits t u ∧ InPlace t old nodes u)
      fun _ _ => False := by
  refine (ends_putInPlace h hnodes).mono (fun _ _ h => h) ?_
  intro e u hfail
  obtain ⟨_, _, hparent, hlen⟩ := hfail
  rcases hplace with hplace | hplace
  · rw [hparent] at hplace
    exact absurd hplace (by simp)
  · exact hlen hplace (hroot hplace)

/-- The place of a node is not touched by replacing the children of another, unless it is a child
there before or after. -/
theorem hasPlace_replaceChildren {p n : NodeId} {cs : List NodeId} (hn : n < t.nodes.size)
    (hold : n ∉ t.children p) (hnew : n ∉ cs) (hplace : t.HasPlace n) :
    (t.replaceChildren p cs).1.HasPlace n := by
  rw [HasPlace, parent_replaceChildren hn hold hnew, root_replaceChildren]
  exact hplace

theorem excise_sound {top bottom : NodeId} (h : t.WellFormed) (htop : top < t.nodes.size)
    (hbottom : bottom < t.nodes.size) : Sound (excise top bottom) t := by
  refine Ends.get_bind ?_
  split
  · exact Ends.of_throw ⟨rfl, by simp⟩
  · rename_i hdom
    split
    · exact Ends.of_throw ⟨rfl, by simp⟩
    · rename_i hattached
      split
      · exact Ends.of_throw ⟨rfl, by simp⟩
      · rename_i hsingle
        -- nothing is refused from here on: `top` is not below `bottom` and keeps its place
        have hup : t.AtOrUnder bottom top := by
          by_cases heq : top = bottom
          · exact heq ▸ .refl
          · have hd : t.dominates top bottom = true := by simpa [heq] using hdom
            exact (h.dominates_iff.mp hd).to_reflTransGen
        have hplace := h.hasPlace_of_isAttached (n := top) (by simpa using hattached)
        have hlen : t.root = some top → (t.children bottom).length = 1 := by
          intro hroot
          simpa [isRoot, hroot] using hsingle
        have hedits : Edits t (t.replaceChildren bottom []).1 :=
          edits_replaceChildren hbottom (by simp)
        refine Sound.after
          (fun cs u => cs = t.children bottom ∧ u = (t.replaceChildren bottom []).1)
          (ends_takeChildren hbottom ⟨hedits, rfl, rfl⟩) ?_
        intro cs u hu hdone
        obtain ⟨rfl, rfl⟩ := hdone
        obtain ⟨hwf, hsize⟩ := h.edits hu
        have hnodes : ∀ n ∈ t.children bottom, n < (t.replaceChildren bottom []).1.nodes.size :=
          fun n hn => Nat.lt_of_lt_of_le (h.child_lt_size hn) hsize
        have hput := ends_putInPlace_of_hasPlace hwf hnodes
          (hasPlace_replaceChildren htop (h.not_mem_children_of_atOrUnder hup) (by simp) hplace)
          (by rwa [root_replaceChildren])
        exact hput.mono (fun _ _ h => h.1) fun _ _ h => h

/-! ## Edits around the tree of a template -/

theorem encloseSisters_sound {s : SisterSpan} {root foot : NodeId} (h : t.WellFormed)
    (hparent : s.parent < t.nodes.size) (hroot : root < t.nodes.size)
    (hfoot : foot < t.nodes.size) : Sound (encloseSisters s root foot) t := by
  have hchild : ∀ c ∈ t.children s.parent, c < t.nodes.size := fun c => h.child_lt_size
  have hcs : ∀ c ∈ (t.children s.parent).take s.first ++
      root :: (t.children s.parent).drop (s.last + 1), c < t.nodes.size := by
    intro c hc
    rcases List.mem_append.mp hc with hc | hc
    · exact hchild c (List.mem_of_mem_take hc)
    · rcases List.mem_cons.mp hc with rfl | hc
      · exact hroot
      · exact hchild c (List.mem_of_mem_drop hc)
  refine Ends.get_bind ?_
  refine Sound.after_request (isKnown_replaceChildren hparent hcs) ?_
  intro u hu
  have hsize := (h.edits hu).2
  have hspan : ∀ c ∈ ((t.children s.parent).drop s.first).take (s.last + 1 - s.first),
      c < u.nodes.size := fun c hc =>
    Nat.lt_of_lt_of_le (hchild c (List.mem_of_mem_drop (List.mem_of_mem_take hc))) hsize
  have hfoot := Nat.lt_of_lt_of_le hfoot hsize
  exact ends_replaceChildren hfoot hspan (edits_replaceChildren hfoot hspan)

theorem encloseNode_sound {id root foot : NodeId} (h : t.WellFormed) (hid : id < t.nodes.size)
    (hroot : root < t.nodes.size) (hfoot : foot < t.nodes.size) :
    Sound (encloseNode id root foot) t := by
  have hnodes : ∀ n ∈ [root], n < t.nodes.size := by simpa using hroot
  refine Sound.after (fun _ u => InPlace t id [root] u)
    ((ends_putInPlace h hnodes).mono (fun _ _ h => h) fun _ _ h => ⟨h.1, h.2.1⟩) ?_
  intro _ u hu _
  have hsize := (h.edits hu).2
  have hcs : ∀ c ∈ [id], c < u.nodes.size := by simpa using Nat.lt_of_lt_of_le hid hsize
  have hfoot := Nat.lt_of_lt_of_le hfoot hsize
  exact ends_replaceChildren hfoot hcs (edits_replaceChildren hfoot hcs)

/-- A detached tree of the arena with a foot, which is its root or has a place in it. -/
structure Footed (t : Tree) (root foot : NodeId) : Prop where
  root_known : root < t.nodes.size
  root_free : t.parent root = none
  root_detached : t.isAttached root = false
  foot_known : foot < t.nodes.size
  foot_detached : t.isAttached foot = false
  foot_placed : foot = root ∨ (t.parent foot).isSome = true

/-- After the root of a detached tree has taken the place of an attached node, the foot of the
detached tree has a place. -/
theorem Footed.foot_hasPlace {target root foot : NodeId} {u : Tree} (h : t.WellFormed)
    (htarget : t.isAttached target = true) (ha : Footed t root foot)
    (hu : InPlace t target [root] u) : u.HasPlace foot := by
  have hroot : t.root ≠ some root := fun hr => by
    have hattached := h.isAttached_iff.mpr ⟨root, hr, .refl⟩
    rw [ha.root_detached] at hattached
    exact absurd hattached (by simp)
  cases hu with
  | @child p before after _ hp haround =>
    have hpattached : t.isAttached p = true := by
      rwa [← h.isAttached_of_parent hp]
    have hchild : ∀ c ∈ t.children p, t.isAttached c = true := fun c hc => by
      rw [h.isAttached_of_parent ((h.mem_children_iff p c).mp hc)]
      exact hpattached
    have hknown : ∀ c ∈ before ++ [root] ++ after, c < t.nodes.size := by
      intro c hc
      rw [List.append_assoc, List.singleton_append, List.mem_append, List.mem_cons] at hc
      rcases hc with hc | rfl | hc
      · exact h.child_lt_size (haround c (List.mem_append_left _ hc)).1
      · exact ha.root_known
      · exact h.child_lt_size (haround c (List.mem_append_right _ hc)).1
    rcases ha.foot_placed with rfl | hfoot
    · -- the foot is the root, which now has the parent of the target
      refine .inl
        (h.parent_replaceChildren_of_mem (h.parent_lt_size hp) hknown (by simp) hroot ?_ ?_)
      · rintro rfl
        rw [ha.root_detached] at hpattached
        exact absurd hpattached (by simp)
      · -- the detached tree is not above the attached node
        intro hup
        obtain ⟨r, hr, hpr⟩ := h.isAttached_iff.mp hpattached
        have hsummit := h.summit_eq (h.root_top r hr) hpr
        have hsummit' := h.summit_eq ha.root_free hup.to_reflTransGen
        rw [← hsummit, hsummit'] at hr
        exact hroot hr
    · -- the foot is further down in the detached tree, where no link changes
      have hold : foot ∉ t.children p := fun hmem => by
        have hattached := hchild foot hmem
        rw [ha.foot_detached] at hattached
        exact absurd hattached (by simp)
      have hnew : foot ∉ before ++ [root] ++ after := by
        rw [List.append_assoc, List.singleton_append, List.mem_append, List.mem_cons]
        rintro (hmem | rfl | hmem)
        · exact hold (haround foot (List.mem_append_left _ hmem)).1
        · rw [ha.root_free] at hfoot
          exact absurd hfoot (by simp)
        · exact hold (haround foot (List.mem_append_right _ hmem)).1
      exact hasPlace_replaceChildren ha.foot_known hold hnew (.inl hfoot)
  | root hp hr =>
    have hset : t.setRoot (some root) = ⟨t.nodes, some root, t.revision + 1⟩ := by
      rw [setRoot, detach_of_parent_none ha.root_free, isRoot,
        if_neg (by simpa using hroot)]
    rw [hset]
    rcases ha.foot_placed with rfl | hfoot
    · exact .inr rfl
    · exact .inl hfoot

/-- Moving the children of the target below the foot: two requests, after which the target still has
its place. -/
theorem ends_lowerChildren {β : Type} {target root foot : NodeId} {rest : Edit β} (h : t.WellFormed)
    (hattached : t.isAttached target = true) (ha : Footed t root foot)
    (hrest : ∀ u, Edits t u → u.HasPlace target →
      Ends rest u (fun _ v => Edits u v) fun _ _ => False) :
    Sound (do
      let cs ← takeChildren target
      replaceChildren foot cs
      rest) t := by
  have htarget := h.lt_size_of_isAttached hattached
  have hnot := h.not_mem_children_of_atOrUnder (.refl (a := target))
  have htake : Edits t (t.replaceChildren target []).1 := edits_replaceChildren htarget (by simp)
  refine Sound.after (fun cs u => cs = t.children target ∧ u = (t.replaceChildren target []).1)
    (ends_takeChildren htarget ⟨htake, rfl, rfl⟩) ?_
  intro cs u hu hdone
  obtain ⟨rfl, rfl⟩ := hdone
  obtain ⟨hwf, hsize⟩ := h.edits hu
  have hfoot := Nat.lt_of_lt_of_le ha.foot_known hsize
  have hcs : ∀ c ∈ t.children target, c < (t.replaceChildren target []).1.nodes.size :=
    fun c hc => Nat.lt_of_lt_of_le (h.child_lt_size hc) hsize
  have hput := edits_replaceChildren hfoot hcs
  have hplace : (t.replaceChildren target []).1.HasPlace target :=
    hasPlace_replaceChildren htarget hnot (by simp) (h.hasPlace_of_isAttached hattached)
  -- a child of the foot would be detached as the foot is
  have hold : target ∉ (t.replaceChildren target []).1.children foot := by
    intro hmem
    have hparent := (hwf.mem_children_iff foot target).mp hmem
    rw [parent_replaceChildren htarget hnot (by simp)] at hparent
    rw [h.isAttached_of_parent hparent, ha.foot_detached] at hattached
    exact absurd hattached (by simp)
  have hstep : Ends (replaceChildren foot (t.children target)) (t.replaceChildren target []).1
      (fun _ v => Edits (t.replaceChildren target []).1 v ∧ v.HasPlace target) fun _ _ => False :=
    ends_replaceChildren hfoot hcs ⟨hput, hasPlace_replaceChildren
      (Nat.lt_of_lt_of_le htarget hsize) hold hnot hplace⟩
  refine Ends.bind hstep ?_ fun _ _ h => h
  intro _ v hv
  exact (hrest v (hu.trans hv.1) hv.2).mono (fun _ w hw => hv.1.trans hw) fun _ _ h => h

theorem adjoin_sound {target root foot : NodeId} (h : t.WellFormed)
    (hattached : t.isAttached target = true) (ha : Footed t root foot) (mode : AdjunctionMode) :
    Sound (adjoin target root foot mode) t := by
  have htarget := h.lt_size_of_isAttached hattached
  cases mode with
  | root =>
    refine ends_lowerChildren h hattached ha ?_
    intro u hu hplace
    obtain ⟨hwf, hsize⟩ := h.edits hu
    have hnodes : ∀ n ∈ [root], n < u.nodes.size := by
      simpa using Nat.lt_of_lt_of_le ha.root_known hsize
    exact (ends_putInPlace_of_hasPlace hwf hnodes hplace fun _ => rfl).mono (fun _ _ h => h.1)
      fun _ _ h => h
  | head =>
    refine ends_lowerChildren h hattached ha ?_
    intro u hu _
    obtain ⟨hwf, hsize⟩ := h.edits hu
    have hroot := Nat.lt_of_lt_of_le ha.root_known hsize
    have htake : Edits u (u.replaceChildren root []).1 := edits_replaceChildren hroot (by simp)
    have hstep : Ends (takeChildren root) u
        (fun cs v => cs = u.children root ∧ v = (u.replaceChildren root []).1) fun _ _ => False :=
      ends_takeChildren hroot ⟨rfl, rfl⟩
    refine Ends.bind hstep ?_ fun _ _ h => h
    intro cs v hv
    obtain ⟨rfl, rfl⟩ := hv
    have hgrows := (hwf.edits htake).2
    have htarget := Nat.lt_of_lt_of_le htarget (Nat.le_trans hsize hgrows)
    have hcs : ∀ c ∈ u.children root, c < (u.replaceChildren root []).1.nodes.size :=
      fun c hc => Nat.lt_of_lt_of_le (hwf.child_lt_size hc) hgrows
    exact ends_replaceChildren htarget hcs (htake.trans (edits_replaceChildren htarget hcs))
  | foot =>
    have hroot : ∀ n ∈ [root], n < t.nodes.size := by simpa using ha.root_known
    refine Sound.after (fun _ u => InPlace t target [root] u)
      ((ends_putInPlace h hroot).mono (fun _ _ h => h) fun _ _ h => ⟨h.1, h.2.1⟩) ?_
    intro _ u hu hin
    obtain ⟨hwf, hsize⟩ := h.edits hu
    have hnodes : ∀ n ∈ [target], n < u.nodes.size := by
      simpa using Nat.lt_of_lt_of_le htarget hsize
    have hplace := ha.foot_hasPlace h hattached hin
    exact (ends_putInPlace_of_hasPlace hwf hnodes hplace fun _ => rfl).mono
      (fun _ _ h => h.1) fun _ _ h => h

end Constituency.Edit
