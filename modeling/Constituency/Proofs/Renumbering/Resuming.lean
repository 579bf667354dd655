import Constituency.Proofs.Renumbering.Isomorphism

/-!
# Enumerations go on in a tree that shows the same

Between two matches a tree can get new nodes, as long as these are not attached: copies that nothing
uses, and trees of templates. An enumeration that goes on then gives what it would have given in the
tree as it was (`Resumes.next`).

Both trees show one labelled tree, so both are renumberings of one compact arena, and the
numberings agree on the nodes of that arena. An enumeration never has to do with other nodes. So it
can be taken for the image of an enumeration of the compact arena under the one numbering or under
the other.
-/

namespace Constituency

open Constituency.Tree

/-! ## What is known is renumbered alike -/

section congr

variable {f g : NodeId → NodeId} {n : Nat} (h : ∀ x, x < n → f x = g x)

include h

theorem Goal.renumber_congr {goal : Goal} (hgoal : goal.node < n) :
    goal.renumber f = goal.renumber g := by
  cases goal with
  | fits id p => exact congrArg (Goal.fits · p) (h id hgoal)
  | meets id c => exact congrArg (Goal.meets · c) (h id hgoal)

theorem Choice.renumber_congr {c : Choice} (hc : c.Known n) : c.renumber f = c.renumber g := by
  rw [renumber, renumber, Bindings.renumber_congr hc.bindings h,
    List.map_congr_left fun goal hg => Goal.renumber_congr h (hc.goals goal hg),
    List.map_congr_left fun goal hg => Goal.renumber_congr h (hc.alternatives goal hg)]

theorem Machine.renumber_congr {m : Machine} (hm : m.Known n) : m.renumber f = m.renumber g := by
  rw [renumber, renumber, Bindings.renumber_congr hm.bindings h,
    List.map_congr_left fun goal hg => Goal.renumber_congr h (hm.goals goal hg),
    List.map_congr_left fun c hc => Choice.renumber_congr h (hm.choices c hc)]

theorem Enumeration.renumber_congr {e : Enumeration} (he : e.Known n)
    (hseen : ∀ b ∈ e.seen, b.Known n) (k : Nat) (i : Index) :
    e.renumber f k i = e.renumber g k i := by
  have hcurrent : e.current.map (Prod.map f (Machine.renumber f)) =
      e.current.map (Prod.map g (Machine.renumber g)) := by
    cases hc : e.current with
    | none => rfl
    | some current =>
      obtain ⟨root, machine⟩ := current
      obtain ⟨hroot, hmachine⟩ := he.current root machine hc
      exact congrArg some (Prod.ext (h root hroot) (Machine.renumber_congr h hmachine))
  rw [renumber, renumber, hcurrent, List.map_congr_left fun x hx => h x (he.roots x hx),
    List.map_congr_left fun b hb => Bindings.renumber_congr (hseen b hb) h]

end congr

namespace Enumeration

/-! ## What has been reported -/

theorem resume_seen {e e' : Enumeration} {t : Tree} {m : Match} (hm : e.resume t = some (m, e')) :
    e'.seen = m.bindings :: e.seen := by
  unfold resume at hm
  obtain ⟨⟨root, machine⟩, _, hm⟩ := Option.bind_eq_some_iff.mp hm
  obtain ⟨⟨b, left⟩, _, hm⟩ := Option.bind_eq_some_iff.mp hm
  obtain ⟨rfl, rfl⟩ := Prod.mk.inj (Option.some.inj hm)
  rfl

theorem tryRoots_seen {e e' : Enumeration} {t : Tree} {m : Match} {roots : List NodeId}
    (hm : e.tryRoots t roots = (some m, e')) : e'.seen = [m.bindings] := by
  induction roots generalizing e with
  | nil => exact absurd (Prod.mk.inj hm).1 (by simp)
  | cons r rs ih =>
    rw [tryRoots_cons] at hm
    split at hm
    · rename_i hfound
      obtain ⟨hsame, rfl⟩ := Prod.mk.inj hm
      obtain rfl := Option.some.inj hsame
      exact resume_seen hfound
    · exact ih hm

/-- A match is remembered, beside those that were. -/
theorem mem_seen_of_next {e e' : Enumeration} {t : Tree} {m : Match} {b : Bindings}
    (hm : e.next t = (some m, e')) (hb : b ∈ e'.seen) : b = m.bindings ∨ b ∈ e.seen := by
  unfold next at hm
  split at hm
  · exact absurd (Prod.mk.inj hm).1 (by simp)
  · split at hm
    · rename_i hfound
      obtain ⟨hsame, rfl⟩ := Prod.mk.inj hm
      obtain rfl := Option.some.inj hsame
      rw [resume_seen hfound] at hb
      exact List.mem_cons.mp hb
    · rw [tryRoots_seen hm] at hb
      exact .inl (List.mem_singleton.mp hb)

end Enumeration

/-! ## Trees that show the same -/

namespace Tree

/-- The second tree has the attached nodes of the first, in the same places and with the same
labels. -/
structure SameShown (t u : Tree) : Prop extends SameAttached t u where
  label : ∀ n ∈ t.attached, u.label n = t.label n

variable {t u v : Tree}

namespace SameShown

theorem refl (t : Tree) : SameShown t t := ⟨.refl t, fun _ _ => rfl⟩

theorem trans (htu : SameShown t u) (huv : SameShown u v) : SameShown t v := by
  refine ⟨htu.toSameAttached.trans huv.toSameAttached, fun n hn => ?_⟩
  rw [huv.label n (by rwa [htu.attached]), htu.label n hn]

theorem isomorphism (h : SameShown t u) : Isomorphism id t u where
  root := by rw [h.root, Option.map_id_fun, id]
  label := h.label
  children n hn := by rw [List.map_id, id, h.children n hn]

section wellFormed

variable (h : SameShown t u) (ht : t.WellFormed) (hu : u.WellFormed)

include h ht hu

theorem compact : u.compact = t.compact := by
  rw [Tree.compact, Tree.compact, h.isomorphism.whole ht hu]

theorem numbering {n : NodeId} (hn : n < t.compact.nodes.size) : u.numbering n = t.numbering n :=
  h.isomorphism.numbering ht hu hn

/-- The second tree is a renumbering of the compact arena of the first. -/
theorem twins : Twins u.numbering u.revision t.compact u := by
  have htwins := hu.twins
  rwa [h.compact ht hu] at htwins

/-- The index of the first tree serves for the second. -/
theorem index : Index.Renumbered u.numbering (Index.build t.compact) (Index.build t) := by
  have hbuild := (h.twins ht hu).build
  refine ⟨h.attached.symm.trans hbuild.preorder, fun n => ?_⟩
  rw [← hbuild.span n]
  exact (Index.span_along h.along ht hu Function.injective_id (u.numbering n)).symm

end wellFormed

end SameShown

end Tree

/-! ## Going on -/

/-- An enumeration that began in `t` and goes on in `u`, which shows the same; `c` does the same in
the compact arena. -/
structure Resumes (t u : Tree) (c e : Enumeration) : Prop where
  shown : SameShown t u
  revision : u.revision = t.revision
  known : c.Known t.compact.nodes.size
  seen : ∀ b ∈ c.seen, b.Known t.compact.nodes.size
  index : c.index = Index.build t.compact
  image : e = c.renumber u.numbering u.revision (Index.build t)

namespace Resumes

variable {t u v : Tree} {c e : Enumeration}

theorem start (ht : t.WellFormed) (p : Pattern) (mode : Mode) :
    Resumes t t (.start p mode t.compact) (.start p mode t) :=
  ⟨.refl t, rfl, Enumeration.start_known t.wellFormed_compact p mode,
    fun _ hb => absurd hb (by simp [Enumeration.start]), rfl,
    Enumeration.start_renumber ht.twins p mode⟩

/-- A tree that comes later and still shows the same. -/
theorem later (h : Resumes t u c e) (ht : t.WellFormed) (hu : u.WellFormed) (hv : v.WellFormed)
    (hshown : SameShown u v) (hrevision : v.revision = u.revision) : Resumes t v c e := by
  have hall := h.shown.trans hshown
  refine ⟨hall, hrevision.trans h.revision, h.known, h.seen, h.index, ?_⟩
  rw [h.image, hrevision]
  refine Enumeration.renumber_congr (fun x hx => ?_) h.known h.seen _ _
  rw [h.shown.numbering ht hu hx, hall.numbering ht hv hx]

/-- **What comes next is what comes next in the compact arena.** -/
theorem next (h : Resumes t u c e) (ht : t.WellFormed) (hu : u.WellFormed) :
    e.next u = Prod.map (Option.map (Match.renumber u.numbering))
      (Enumeration.renumber u.numbering u.revision (Index.build t)) (c.next t.compact) := by
  rw [h.image]
  exact Enumeration.next_renumber (h.shown.twins ht hu) (h.index ▸ h.shown.index ht hu)

theorem next_none (h : Resumes t u c e) (ht : t.WellFormed) (hu : u.WellFormed)
    (hnone : (e.next u).1 = none) : (c.next t.compact).1 = none := by
  rw [h.next ht hu] at hnone
  exact Option.map_eq_none_iff.mp hnone

/-- A match is one of the compact arena, numbered as in the tree where the enumeration began. -/
theorem next_some (h : Resumes t u c e) (ht : t.WellFormed) (hu : u.WellFormed) {m : Match}
    {e' : Enumeration} (hm : e.next u = (some m, e')) :
    ∃ m₀ c', c.next t.compact = (some m₀, c') ∧ m = m₀.renumber t.numbering ∧
      Resumes t u c' e' := by
  rw [h.next ht hu] at hm
  rcases hnext : c.next t.compact with ⟨_ | m₀, c'⟩
  · rw [hnext] at hm
    exact absurd (Prod.mk.inj hm).1 (by simp)
  · rw [hnext] at hm
    obtain ⟨hsame, rfl⟩ := Prod.mk.inj hm
    obtain rfl := Option.some.inj hsame
    obtain ⟨hknown, hknown'⟩ := Enumeration.next_known t.wellFormed_compact h.known hnext
    refine ⟨m₀, c', rfl, Match.renumber_congr hknown fun x hx => h.shown.numbering ht hu hx,
      h.shown, h.revision, hknown', fun b hb => ?_,
      (Enumeration.alike_of_next hnext).index.trans h.index, rfl⟩
    rcases Enumeration.mem_seen_of_next hnext hb with rfl | hb
    · exact hknown.bindings
    · exact h.seen b hb

/-- The arena without nodes has no matches. -/
theorem remaining_of_isEmpty (h : Resumes t u c e) (hempty : u.isEmpty = true) :
    c.remaining t.compact = [] := by
  have hsize : t.compact.nodes.size = 0 := by
    rw [size_compact, ← h.shown.attached]
    have hroot : u.root = none := Option.isNone_iff_eq_none.mp hempty
    rw [attached, hroot]
    rfl
  rcases hnext : c.next t.compact with ⟨_ | m, c'⟩
  · exact Enumeration.remaining_of_next_none hnext
  · have hm := (Enumeration.next_known t.wellFormed_compact h.known hnext).1.root
    rw [hsize] at hm
    exact absurd hm (Nat.not_lt_zero _)

end Resumes

end Constituency
