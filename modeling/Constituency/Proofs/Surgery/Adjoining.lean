import Constituency.Proofs.Surgery.Enclosing

/-!
# What an adjunction comes to

The three modes of adjunction take two to four steps each, and what they come to is one thing: every
list of children is known (`Tree.adjoinedChildren`), and so is the root. Everything else about an
adjunction is read off these lists.

* Attached nodes other than the target have one node in the place of the target, and apart from it
  the children they had; below the target this is no change at all.
* The former children of the target are in the list of an attached node, so that they are still
  attached with all that is below them.
-/

namespace Constituency

open Constituency.Tree

/-! ## Which node plays which part -/

namespace AdjunctionMode

variable (target root foot : NodeId)

/-- The node that stands in the place of the target after an adjunction. -/
def inPlace : AdjunctionMode → NodeId
  | .root => root
  | .head => target
  | .foot => if foot = root then target else root

/-- The node that has the former children of the target after an adjunction. -/
def holder : AdjunctionMode → NodeId
  | .root => foot
  | .head => if foot = root then target else foot
  | .foot => target

/-- The node that is given up for another one in an adjunction. -/
def discarded : AdjunctionMode → NodeId
  | .root => target
  | .head => root
  | .foot => foot

end AdjunctionMode

namespace Tree

/-- The lists of children after the detached tree of `root` with its foot has been adjoined. -/
def adjoinedChildren (t : Tree) (target root foot : NodeId) :
    AdjunctionMode → NodeId → List NodeId
  | .root, q =>
    if q = foot then t.children target
    else if q = target then []
    else inPlaceOf target [root] (t.children q)
  | .head, q =>
    if q = target then (if foot = root then t.children target else t.children root)
    else if q = root then []
    else if q = foot then t.children target
    else t.children q
  | .foot, q => inPlaceOf foot [target] (inPlaceOf target [root] (t.children q))

/-- The lists of children after those of one node have moved below another. -/
def loweredChildren (t : Tree) (source dest q : NodeId) : List NodeId :=
  if q = dest then t.children source else if q = source then [] else t.children q

variable {t u : Tree} {target root foot : NodeId}

/-- An adjunction of a detached tree to an attached node. -/
structure Adjunction (t : Tree) (target root foot : NodeId) : Prop where
  wellFormed : t.WellFormed
  target_attached : t.isAttached target = true
  root_loose : t.Loose root
  foot_below : t.AtOrUnder foot root

namespace Adjunction

variable (h : t.Adjunction target root foot)

include h

theorem not_isAttached_above {n : NodeId} (hn : t.AtOrUnder foot n) : t.isAttached n = false := by
  have hfoot := h.wellFormed.not_isAttached_below h.root_loose h.foot_below
  rw [Bool.eq_false_iff]
  intro hattached
  rw [h.wellFormed.isAttached_of_atOrUnder hattached hn] at hfoot
  exact absurd hfoot (by simp)

theorem ne_of_above {q n : NodeId} (hq : t.isAttached q = true) (hn : t.AtOrUnder foot n) :
    q ≠ n := by
  rintro rfl
  rw [h.not_isAttached_above hn] at hq
  exact absurd hq (by simp)

theorem ne_foot {q : NodeId} (hq : t.isAttached q = true) : q ≠ foot := h.ne_of_above hq .refl

theorem ne_root {q : NodeId} (hq : t.isAttached q = true) : q ≠ root :=
  h.ne_of_above hq h.foot_below

theorem foot_known : foot < t.nodes.size := by
  rcases Relation.ReflTransGen.cases_head h.foot_below with heq | ⟨p, hp, _⟩
  · exact heq ▸ h.root_loose.known
  · exact lt_size_of_parent hp

theorem root_notMem (q : NodeId) : root ∉ t.children q :=
  h.wellFormed.parent_eq_none_iff.mp h.root_loose.free q

/-- A node is attached just like the node that lists it. -/
theorem isAttached_of_mem {q c : NodeId} (hc : c ∈ t.children q) :
    t.isAttached c = t.isAttached q :=
  h.wellFormed.isAttached_of_parent ((h.wellFormed.mem_children_iff q c).mp hc)

/-- Nodes of the detached tree do not list the target. -/
theorem target_notMem {q : NodeId} (hq : t.isAttached q = false) : target ∉ t.children q := by
  intro hmem
  rw [← h.isAttached_of_mem hmem, h.target_attached] at hq
  exact absurd hq (by simp)

theorem foot_notMem {q : NodeId} (hq : t.isAttached q = true) : foot ∉ t.children q := by
  intro hmem
  rw [← h.isAttached_of_mem hmem, h.not_isAttached_above .refl] at hq
  exact absurd hq (by simp)

theorem target_notMem_self : target ∉ t.children target :=
  h.wellFormed.not_mem_children_of_atOrUnder .refl

end Adjunction

end Tree

/-! ## The steps -/

namespace Edit

variable {t u : Tree} {target root foot : NodeId} {done : Unit → Tree → Prop}
  {failed : Refusal → Tree → Prop} (h : t.Adjunction target root foot)

/-- Taking the children of a node. -/
theorem ends_takeChildren_rearranged {id : NodeId} (h : t.WellFormed) (hid : id < t.nodes.size) :
    Ends (takeChildren id) t (fun cs u => cs = t.children id ∧
      Rearranged t u t.root (Function.update t.children id [])) failed :=
  ends_takeChildren hid ⟨rfl, h.rearranged_replaceChildren hid List.nodup_nil (by simp)⟩

include h

/-- The children of the target move below the foot. -/
theorem ends_lowerChildren_rearranged {rest : Edit Unit}
    (hrest : ∀ u, Rearranged t u t.root (t.loweredChildren target foot) →
      u.isAttached target = true → u.Loose root → Ends rest u done failed) :
    Ends (do
      let cs ← takeChildren target
      replaceChildren foot cs
      rest) t done failed := by
  have hwf := h.wellFormed
  refine (ends_takeChildren_rearranged hwf (hwf.lt_size_of_isAttached h.target_attached)).bind ?_
    fun _ _ h => h
  rintro _ u ⟨rfl, hu⟩
  have hold : ∀ q c, c ∈ u.children q → c ∈ t.children q := by
    intro q c hc
    rw [hu.children, Function.update_apply] at hc
    split at hc
    · exact absurd hc (by simp)
    · exact hc
  -- the children are tops now, and the foot is in another part of the forest
  have hready : ∀ c ∈ t.children target, c ∈ u.children foot ∨ u.Ready foot c := by
    intro c hc
    have hattached : t.isAttached c = true := by rw [h.isAttached_of_mem hc, h.target_attached]
    have hloose := hwf.loose_of_taken hu hc
    refine .inr ⟨hloose.known, hloose.free, hloose.not_root, h.ne_foot hattached, ?_⟩
    refine not_under_of_closed (fun n => t.isAttached n = false) (fun x y hx hl => ?_)
      (h.not_isAttached_above .refl) (by simp [hattached])
    rw [← h.isAttached_of_mem (hold y x ((hu.wellFormed.mem_children_iff y x).mpr hl))]
    exact hx
  have hstep : Ends (replaceChildren foot (t.children target)) u
      (fun _ v => Rearranged t v t.root (t.loweredChildren target foot)) failed :=
    ends_replaceChildren_rearranged hu.wellFormed (hu.size ▸ h.foot_known)
      (hwf.children_nodup target) hready
      fun v _ hv => (hu.trans hv).of_eq hu.root fun q => by
        rw [Function.update_apply, hu.children, Function.update_apply, loweredChildren]
  refine hstep.bind ?_ fun _ _ h => h
  intro _ v hv
  refine hrest v hv ?_ ⟨hv.size ▸ h.root_loose.known, hv.parent_eq_none fun q hmem => ?_,
    hv.root ▸ h.root_loose.not_root⟩
  · refine hwf.isAttached_of_kept hv.wellFormed hv.root h.target_attached fun a b ha hmem => ?_
    have hb : t.isAttached b = true := by
      rw [← h.isAttached_of_mem hmem, hwf.isAttached_above h.target_attached ha]
    have hbt : b ≠ target := fun heq =>
      hwf.not_mem_children_of_atOrUnder (p := target) ha (heq ▸ hmem)
    rw [hv.children, loweredChildren, if_neg (h.ne_foot hb), if_neg hbt]
    exact hmem
  · rw [loweredChildren] at hmem
    split at hmem
    · exact h.root_notMem target hmem
    · split at hmem
      · exact absurd hmem (by simp)
      · exact h.root_notMem q hmem

theorem ends_adjoin_root : Ends (adjoin target root foot .root) t
    (fun _ u => Rearranged t u (if t.root = some target then some root else t.root)
      (t.adjoinedChildren target root foot .root)) failed := by
  refine ends_lowerChildren_rearranged h fun u hu hattached hloose => ?_
  refine ends_putInPlace_rearranged hu.wellFormed hattached (List.nodup_singleton root)
    (by simpa using hloose) (fun _ => rfl) fun v hv _ => ?_
  refine (hu.trans hv).of_eq (by rw [hu.root]; rfl) fun q => ?_
  rw [hu.children, adjoinedChildren, loweredChildren]
  split
  · exact inPlaceOf_of_notMem h.target_notMem_self
  · split <;> rfl

/-- The children of the root are taken from it when those of the target have come to the foot, and
so they are the same if the two are one node. -/
theorem ends_adjoin_head : Ends (adjoin target root foot .head) t
    (fun _ u => Rearranged t u t.root (t.adjoinedChildren target root foot .head)) failed := by
  refine ends_lowerChildren_rearranged h fun u hu hattached hloose => ?_
  refine (ends_takeChildren_rearranged hu.wellFormed hloose.known).bind ?_ fun _ _ h => h
  rintro _ v ⟨rfl, hv⟩
  have htarget : v.isAttached target = true := by
    refine hu.wellFormed.isAttached_of_kept hv.wellFormed hv.root hattached fun a b ha hmem => ?_
    rw [hv.children, Function.update_of_ne]
    · exact hmem
    · rintro rfl
      have hb := hu.wellFormed.isAttached_above hattached
        (ha.tail ((hu.wellFormed.mem_children_iff b a).mp hmem))
      rw [hu.wellFormed.not_isAttached_of_loose hloose] at hb
      exact absurd hb (by simp)
  refine ends_replaceChildren_rearranged hv.wellFormed
    (hv.wellFormed.lt_size_of_isAttached htarget) (hu.wellFormed.children_nodup root)
    (fun c hc => .inr (hv.wellFormed.ready_of_isAttached htarget
      (hu.wellFormed.loose_of_taken hv hc))) fun w _ hw => ?_
  refine ((hu.trans hv).trans hw).of_eq (hv.root.trans hu.root) fun q => ?_
  have htr : root ≠ target := (h.ne_root h.target_attached).symm
  rw [Function.update_apply, hv.children, Function.update_apply, hu.children, hu.children,
    adjoinedChildren, loweredChildren, loweredChildren, if_neg htr]
  by_cases hq : q = target
  · rw [if_pos hq, if_pos hq]
    exact if_congr eq_comm rfl rfl
  · rw [if_neg hq, if_neg hq, if_neg hq]

theorem ends_adjoin_foot : Ends (adjoin target root foot .foot) t
    (fun _ u => Rearranged t u
      (if t.root = some target then some (if foot = root then target else root) else t.root)
      (t.adjoinedChildren target root foot .foot)) failed := by
  have hfirst : Ends (putInPlace target [root]) t
      (fun _ u => Rearranged t u (if t.root = some target then [root].head? else t.root)
        (fun q => inPlaceOf target [root] (t.children q)) ∧ u.isAttached root = true) failed :=
    ends_putInPlace_rearranged h.wellFormed h.target_attached (List.nodup_singleton root)
      (by simpa using h.root_loose) (fun _ => rfl) fun u hu hattached =>
        ⟨hu, hattached root (List.mem_singleton_self root)⟩
  refine hfirst.bind ?_ fun _ _ h => h
  rintro _ u ⟨hu, hattached⟩
  -- the target is enclosed, up to its move below the foot
  have henc := h.wellFormed.enclosed_node h.root_loose h.foot_below h.target_attached hu hattached
  have hfoot := henc.wellFormed.isAttached_of_atOrUnder henc.root_attached henc.foot_below
  refine ends_putInPlace_rearranged henc.wellFormed hfoot henc.nodup henc.loose (fun _ => rfl)
    fun v hv _ => ?_
  refine (hu.trans hv).of_eq ?_ fun q => by rw [hu.children, adjoinedChildren]
  rw [hu.root]
  by_cases hr : t.root = some target
  · rw [if_pos hr, if_pos hr, List.head?_cons, List.head?_cons]
    by_cases hfr : foot = root
    · rw [hfr, if_pos rfl, if_pos rfl]
    · rw [if_neg hfr, if_neg fun heq => hfr (Option.some.inj heq).symm]
  · rw [if_neg hr, if_neg hr, if_neg]
    intro hrf
    exact h.ne_foot (h.wellFormed.isAttached_iff.mpr ⟨foot, hrf, .refl⟩) rfl

/-- **Adjoining** comes to a new root and new lists of children. -/
theorem ends_adjoin (mode : AdjunctionMode) : Ends (adjoin target root foot mode) t
    (fun _ u => Rearranged t u
      (if t.root = some target then some (mode.inPlace target root foot) else t.root)
      (t.adjoinedChildren target root foot mode)) failed := by
  cases mode with
  | root => exact ends_adjoin_root h
  | head =>
    refine (ends_adjoin_head h).mono (fun _ u hu => hu.of_eq ?_ fun _ => rfl) fun _ _ h => h
    split
    · assumption
    · rfl
  | foot => exact ends_adjoin_foot h

end Edit

end Constituency
