import Constituency.Proofs.Renumbering.Edits
import Constituency.Surgery.Edit

/-!
# Edits around corresponding nodes

Two runs of one program, from states that correspond, end in states that correspond: both with
corresponding values, or both given up for the same reason (`Corresponds`). The two runs are
followed through step by step, side by side. What decides between the branches of an edit, whether a
node is attached, above another or in the arena at all, comes out the same in both, and each step is
a request, of which this is known (`Tree.Twins.request`).
-/

namespace Constituency

open Constituency.Tree

/-! ## Two runs -/

section runs

variable {ε σ α β γ δ : Type} {R : σ → σ → Prop} {φ : α → β} {ψ : γ → δ}

/-- Two runs end with values that `φ` makes correspond, or for the same reason, and in states that
`R` relates. -/
def Corresponds (R : σ → σ → Prop) (φ : α → β) (x : ExceptT ε (StateM σ) α)
    (y : ExceptT ε (StateM σ) β) (s s' : σ) : Prop :=
  (y.run.run s').1 = (x.run.run s).1.map φ ∧ R (x.run.run s).2 (y.run.run s').2

namespace Corresponds

variable {x : ExceptT ε (StateM σ) α} {y : ExceptT ε (StateM σ) β} {s s' : σ}
  {g : α → ExceptT ε (StateM σ) γ} {g' : β → ExceptT ε (StateM σ) δ}

theorem of_pure {a : α} {b : β} (hb : b = φ a) (h : R s s') :
    Corresponds R φ (pure a : ExceptT ε (StateM σ) α) (pure b) s s' :=
  ⟨congrArg Except.ok hb, h⟩

theorem of_throw {e : ε} (h : R s s') :
    Corresponds R φ (throw e : ExceptT ε (StateM σ) α) (throw e) s s' :=
  ⟨rfl, h⟩

theorem of_ofExcept {r : Except ε α} {r' : Except ε β} (hr : r' = r.map φ) (h : R s s') :
    Corresponds R φ (ofExcept r : ExceptT ε (StateM σ) α) (ofExcept r') s s' := by
  subst hr
  cases r <;> exact ⟨rfl, h⟩

theorem of_ofExcept_same {r : Except ε α} (h : R s s') :
    Corresponds R id (ofExcept r : ExceptT ε (StateM σ) α) (ofExcept r) s s' :=
  of_ofExcept (by cases r <;> rfl) h

/-- One step after the other. -/
theorem bind (hx : Corresponds R φ x y s s')
    (hg : ∀ a u u', R u u' → Corresponds R ψ (g a) (g' (φ a)) u u') :
    Corresponds R ψ (x >>= g) (y >>= g') s s' := by
  obtain ⟨hvalue, hstate⟩ := hx
  unfold Corresponds
  rw [ExceptT.run_bind, ExceptT.run_bind, StateT.run_bind, StateT.run_bind]
  rcases hrun : x.run.run s with ⟨r, u⟩
  rcases hrun' : y.run.run s' with ⟨r', u'⟩
  rw [hrun, hrun'] at hvalue hstate
  dsimp only at hvalue hstate
  subst hvalue
  cases r with
  | ok a => exact hg a u u' hstate
  | error e => exact ⟨rfl, hstate⟩

/-- Reading the state. -/
theorem get_bind {g : σ → ExceptT ε (StateM σ) γ} {g' : σ → ExceptT ε (StateM σ) δ}
    (h : Corresponds R ψ (g s) (g' s') s s') : Corresponds R ψ (get >>= g) (get >>= g') s s' :=
  h

/-- Setting the state. -/
theorem set_bind {u u' : σ} {g : PUnit → ExceptT ε (StateM σ) γ}
    {g' : PUnit → ExceptT ε (StateM σ) δ} (h : Corresponds R ψ (g ⟨⟩) (g' ⟨⟩) u u') :
    Corresponds R ψ (set u >>= g) (set u' >>= g') s s' :=
  h

/-- Changing the state. -/
theorem of_modify {c c' : σ → σ} (h : R (c s) (c' s')) :
    Corresponds R id (modify c : ExceptT ε (StateM σ) PUnit) (modify c') s s' :=
  ⟨rfl, h⟩

end Corresponds

end runs

variable {f : NodeId → NodeId} {k : Nat}

/-! ## Questions -/

namespace Tree.Twins

variable {t u : Tree}

theorem childrenBut (h : t.Twins f k u) (n : NodeId) (moving : Option NodeId) :
    u.childrenBut (f n) (moving.map f) = (t.childrenBut n moving).map f := by
  unfold Tree.childrenBut
  rw [h.children, List.filter_map]
  congr 2
  funext c
  exact congrArg (!·) (map_beq_map h.injective (some c) moving)

theorem sisterIndex (h : t.Twins f k u) (n : NodeId) (moving : Option NodeId) :
    u.sisterIndex (f n) (moving.map f) = (t.sisterIndex n moving).map (Prod.map f id) := by
  unfold Tree.sisterIndex
  rw [h.parent]
  cases t.parent n with
  | none => rfl
  | some p =>
    dsimp only [Option.map_some]
    rw [h.childrenBut, idxOf?_map h.injective]
    cases (t.childrenBut p moving).idxOf? n <;> rfl

theorem locate (h : t.Twins f k u) (place : Place) (anchor : NodeId) (moving : Option NodeId) :
    u.locate place (f anchor) (moving.map f) =
      (t.locate place anchor moving).map (Prod.map f id) := by
  unfold Tree.locate
  rw [h.isAttached]
  split
  · rfl
  · cases place with
    | leftOf name => exact h.sisterIndex anchor moving
    | rightOf name =>
      dsimp only
      rw [h.sisterIndex]
      cases t.sisterIndex anchor moving <;> rfl
    | child name position =>
      dsimp only
      rw [h.childrenBut, List.length_map]
      split <;> split <;> rfl

theorem checkMove (h : t.Twins f k u) (n anchor : NodeId) :
    u.checkMove (f n) (f anchor) = t.checkMove n anchor := by
  rw [Tree.checkMove, Tree.checkMove, h.isRoot, h.dominates, h.injective.beq_eq]

theorem sistersBetween (h : t.Twins f k u) (a b : NodeId) :
    u.sistersBetween (f a) (f b) =
      (t.sistersBetween a b).map fun span => ⟨f span.parent, span.first, span.last⟩ := by
  unfold Tree.sistersBetween
  rw [h.parent, h.parent, h.childIndex, h.childIndex]
  cases t.parent a with
  | none => rfl
  | some p =>
    cases t.childIndex a with
    | none => rfl
    | some i =>
      cases t.childIndex b with
      | none => rfl
      | some j =>
        dsimp only [Option.map_some]
        have hsame : ((t.parent b).map f == some (f p)) = (t.parent b == some p) :=
          map_beq_map h.injective (t.parent b) (some p)
        rw [hsame]
        split <;> rfl

end Tree.Twins

/-! ## Edits -/

namespace Edit

variable {t u : Tree}

theorem perform_renumber (h : t.Twins f k u) (r : Request) :
    Corresponds (Tree.Twins f k) id (perform r) (perform (r.renumber f)) t u := by
  have hrequest := h.request r
  unfold perform
  refine Corresponds.get_bind ?_
  rcases ht : t.request r with ⟨t', answer⟩
  rcases hu : u.request (r.renumber f) with ⟨u', answer'⟩
  rw [ht, hu] at hrequest
  obtain ⟨htrees, rfl⟩ := hrequest
  refine Corresponds.set_bind ?_
  rw [Option.isNone_map]
  split
  · exact .of_throw htrees
  · exact .of_pure rfl htrees

theorem detach_renumber (h : t.Twins f k u) (n : NodeId) :
    Corresponds (Tree.Twins f k) id (detach n) (detach (f n)) t u :=
  perform_renumber h (.detach n)

theorem relabel_renumber (h : t.Twins f k u) (n : NodeId) (l : Label) :
    Corresponds (Tree.Twins f k) id (relabel n l) (relabel (f n) l) t u :=
  perform_renumber h (.setLabel n l)

theorem insert_renumber (h : t.Twins f k u) (parent : NodeId) (index : Nat) (n : NodeId) :
    Corresponds (Tree.Twins f k) id (insert parent index n) (insert (f parent) index (f n)) t u :=
  perform_renumber h (.insertChild parent index n)

theorem replaceChildren_renumber (h : t.Twins f k u) (n : NodeId) (cs : List NodeId) :
    Corresponds (Tree.Twins f k) id (replaceChildren n cs) (replaceChildren (f n) (cs.map f)) t u :=
  perform_renumber h (.replaceChildren n cs)

theorem detachChildless_renumber (ids : List NodeId) (h : t.Twins f k u) :
    Corresponds (Tree.Twins f k) id (detachChildless ids) (detachChildless (ids.map f)) t u := by
  induction ids generalizing t u with
  | nil => exact .of_pure rfl h
  | cons n ids ih =>
    rw [List.map_cons, detachChildless, detachChildless]
    refine Corresponds.get_bind ?_
    rw [h.isLeaf]
    split
    · exact (detach_renumber h n).bind fun _ _ _ hu => ih hu
    · exact .of_pure rfl h

theorem prune_renumber (h : t.Twins f k u) (n : NodeId) :
    Corresponds (Tree.Twins f k) id (prune n) (prune (f n)) t u := by
  refine Corresponds.get_bind ((detach_renumber h n).bind fun _ _ _ hu => ?_)
  rw [h.ancestors]
  exact detachChildless_renumber _ hu

theorem coindex_renumber (index : Nat) (h : t.Twins f k u) (n : NodeId) :
    Corresponds (Tree.Twins f k) id (coindex index n) (coindex index (f n)) t u := by
  refine Corresponds.get_bind ?_
  rw [h.label]
  exact relabel_renumber h n _

theorem takeChildren_renumber (h : t.Twins f k u) (n : NodeId) :
    Corresponds (Tree.Twins f k) (List.map f) (takeChildren n) (takeChildren (f n)) t u := by
  refine Corresponds.get_bind ((replaceChildren_renumber h n []).bind fun _ _ _ hu => ?_)
  exact .of_pure (h.children n) hu

theorem putInPlace_renumber (h : t.Twins f k u) (old : NodeId) (nodes : List NodeId) :
    Corresponds (Tree.Twins f k) id (putInPlace old nodes) (putInPlace (f old) (nodes.map f))
      t u := by
  refine Corresponds.get_bind ?_
  rw [h.parent, h.childIndex, h.isRoot]
  cases hindex : t.childIndex old with
  | none =>
    -- a node without a place gives way only if it is the root, and to a single node
    cases t.parent old with
    | _ =>
      dsimp only [Option.map]
      split
      · exact .of_throw h
      · rcases nodes with _ | ⟨n, _ | ⟨m, nodes⟩⟩
        · exact .of_throw h
        · exact perform_renumber h (.setRoot (some n))
        · exact .of_throw h
  | some i =>
    cases hp : t.parent old with
    | none => exact absurd hindex (by simp [Tree.childIndex, hp])
    | some p =>
      have hplace := replaceChildren_renumber h p
        ((t.children p).take i ++ nodes ++ (t.children p).drop (i + 1))
      rw [List.map_append, List.map_append, List.map_take, List.map_drop, ← h.children] at hplace
      exact hplace

theorem move_renumber (h : t.Twins f k u) (n parent : NodeId) (index : Nat) :
    Corresponds (Tree.Twins f k) id (move n parent index) (move (f n) (f parent) index) t u :=
  (detach_renumber h n).bind fun _ _ _ hu => insert_renumber hu parent index n

theorem excise_renumber (h : t.Twins f k u) (top bottom : NodeId) :
    Corresponds (Tree.Twins f k) id (excise top bottom) (excise (f top) (f bottom)) t u := by
  refine Corresponds.get_bind ?_
  have hne : (f top != f bottom) = (top != bottom) := congrArg (!·) h.injective.beq_eq
  rw [hne, h.dominates, h.isAttached, h.isRoot, h.children, List.length_map]
  split
  · exact .of_throw h
  · split
    · exact .of_throw h
    · split
      · exact .of_throw h
      · exact (takeChildren_renumber h bottom).bind fun cs _ _ hu => putInPlace_renumber hu top cs

theorem encloseSisters_renumber (h : t.Twins f k u) (p root foot : NodeId) (first last : Nat) :
    Corresponds (Tree.Twins f k) id (encloseSisters ⟨p, first, last⟩ root foot)
      (encloseSisters ⟨f p, first, last⟩ (f root) (f foot)) t u := by
  refine Corresponds.get_bind ?_
  have houter := replaceChildren_renumber h p
    ((t.children p).take first ++ root :: (t.children p).drop (last + 1))
  rw [List.map_append, List.map_cons, List.map_take, List.map_drop, ← h.children] at houter
  refine houter.bind fun _ _ _ hu => ?_
  have hinner := replaceChildren_renumber hu foot
    (((t.children p).drop first).take (last + 1 - first))
  rw [List.map_take, List.map_drop, ← h.children] at hinner
  exact hinner

theorem encloseNode_renumber (h : t.Twins f k u) (n root foot : NodeId) :
    Corresponds (Tree.Twins f k) id (encloseNode n root foot) (encloseNode (f n) (f root) (f foot))
      t u :=
  (putInPlace_renumber h n [root]).bind fun _ _ _ hu => replaceChildren_renumber hu foot [n]

theorem adjoin_renumber (h : t.Twins f k u) (target root foot : NodeId) (mode : AdjunctionMode) :
    Corresponds (Tree.Twins f k) id (adjoin target root foot mode)
      (adjoin (f target) (f root) (f foot) mode) t u := by
  cases mode with
  | root =>
    refine (takeChildren_renumber h target).bind fun cs _ _ h => ?_
    refine (replaceChildren_renumber h foot cs).bind fun _ _ _ h => ?_
    exact putInPlace_renumber h target [root]
  | head =>
    refine (takeChildren_renumber h target).bind fun cs _ _ h => ?_
    refine (replaceChildren_renumber h foot cs).bind fun _ _ _ h => ?_
    refine (takeChildren_renumber h root).bind fun spine _ _ h => ?_
    exact replaceChildren_renumber h target spine
  | foot =>
    refine (putInPlace_renumber h target [root]).bind fun _ _ _ h => ?_
    exact putInPlace_renumber h foot [target]

end Edit

end Constituency
