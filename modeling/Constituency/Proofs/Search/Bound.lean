import Mathlib.Algebra.Group.Nat.Defs
import Mathlib.Data.List.Sections
import Mathlib.Data.List.ProdSigma
import Constituency.Proofs.Search.Paths
import Constituency.Proofs.Search.Variables

/-!
# There are only so many matches

While nodes are relabelled, an enumeration may report matches that no single tree has, but it does
not go on for ever. Whatever is reported binds the variables of the pattern to attached nodes, of
which relabelling makes no more. Since no match is reported twice, their number is bounded by the
ways of choosing a root and, for every variable, a node or none (`Pattern.matchBound`).
-/

namespace Constituency

open Constituency.Tree

namespace Branch

/-- A branch about attached nodes, with bindings for a given number of variables. -/
structure Attached (t : Tree) (n : Nat) (x : Branch) : Prop where
  goals : ∀ g ∈ x.1, g.node ∈ t.attached
  bindings : ∀ id, some id ∈ x.2 → id ∈ t.attached
  length : x.2.length = n

variable {t u : Tree} {n : Nat} {x y : Branch}

/-- **A step leads from attached nodes to attached nodes**, in every tree in which the same nodes
are attached. -/
theorem Attached.step (h : x.Attached t n) (ht : t.WellFormed) (hu : t.Uncounted u) {p : Pattern}
    (hxy : StepIn (p.sceneOf u) x y) : y.Attached t n := by
  have hattached := (hu.edits.sameAttached ht hu.revision).attached
  have hlength := hxy.step.bindings.1.trans h.length
  -- the goals put in the place of the first are about its node, unless a relation is followed
  have hlater : ∀ (gs' : List Goal) {g : Goal} {gs : List Goal} {b : Bindings},
      Attached t n (g :: gs, b) → (∀ g' ∈ gs', g'.node ∈ t.attached) →
      ∀ g' ∈ gs' ++ gs, g'.node ∈ t.attached := by
    intro gs' g gs b h hgs' g' hg'
    rcases List.mem_append.mp hg' with hg' | hg'
    · exact hgs' g' hg'
    · exact h.goals g' (List.mem_cons_of_mem g hg')
  have hfirst : ∀ {g : Goal} {gs : List Goal} {b : Bindings},
      Attached t n (g :: gs, b) → g.node ∈ t.attached := fun h => h.goals _ (List.mem_cons_self ..)
  cases hxy with
  | @enter d v c id gs b b' henter =>
    have hid : id ∈ t.attached := hfirst h
    refine ⟨hlater _ h fun g hg => ?_, Scene.enter_all h.bindings hid henter, hlength⟩
    cases c with
    | none => exact absurd hg List.not_mem_nil
    | some c => exact List.mem_singleton.mp hg ▸ hid
  | @all cs id gs b =>
    have hid : id ∈ t.attached := hfirst h
    refine ⟨hlater _ h fun g hg => ?_, h.bindings, hlength⟩
    obtain ⟨c, _, rfl⟩ := List.mem_map.mp hg
    exact hid
  | @any c cs id gs b _ =>
    have hid : id ∈ t.attached := hfirst h
    exact ⟨hlater [_] h (List.forall_mem_singleton.mpr hid), h.bindings, hlength⟩
  | not _ => exact ⟨hlater [] h fun _ hg => absurd hg List.not_mem_nil, h.bindings, hlength⟩
  | skip _ => exact ⟨hlater [] h fun _ hg => absurd hg List.not_mem_nil, h.bindings, hlength⟩
  | @take c id gs b =>
    have hid : id ∈ t.attached := hfirst h
    exact ⟨hlater [_] h (List.forall_mem_singleton.mpr hid), h.bindings, hlength⟩
  | @related r target id z gs b hz =>
    refine ⟨hlater [_] h (List.forall_mem_singleton.mpr ?_), h.bindings, hlength⟩
    have hid : id ∈ u.attached := hattached ▸ hfirst h
    exact hattached ▸ (ht.edits hu.edits).1.candidate_mem_attached hid hz

end Branch

namespace Pattern

open Enumeration

variable {t₀ : Tree} {ts : List Tree} {p : Pattern} {mode : Mode}

/-- The number of ways of choosing an attached node as a root and, for every variable, one or
none. -/
def matchBound (p : Pattern) (t : Tree) : Nat :=
  t.attached.length * (t.attached.length + 1) ^ p.names.length

/-- **A match binds variables to attached nodes**, whatever they were called in the meantime. -/
theorem bindings_attached (h₀ : t₀.WellFormed) (hts : ∀ u ∈ ts, t₀.Uncounted u) {m : Match}
    (hm : m ∈ (start p mode t₀).reports ts) :
    m.bindings.length = p.names.length ∧ ∀ id, some id ∈ m.bindings → id ∈ t₀.attached := by
  obtain ⟨earlier, t, later, rfl, hcall⟩ := exists_call_of_mem_reports hm
  have hcalls : ∀ u ∈ earlier ++ [t], t₀.Uncounted u := by
    intro u hu
    refine hts u ?_
    rw [← List.singleton_append, ← List.append_assoc]
    exact List.mem_append_left later hu
  obtain ⟨_, since, _, _, hsince, hpath⟩ := exists_path h₀ p mode hcalls hcall
  have hstart : (p.startAt m.root).Attached t₀ p.names.length := by
    refine ⟨List.forall_mem_singleton.mpr (root_mem_attached h₀ p mode hm), fun id hid => ?_,
      List.length_replicate⟩
    exact absurd (List.eq_of_mem_replicate hid) (by simp)
  have hend : Branch.Attached t₀ p.names.length ([], m.bindings) := by
    refine hpath.kept (fun s hs x y hxy hx => ?_) hstart
    obtain ⟨u, hu, rfl⟩ := List.mem_map.mp hs
    exact hx.step h₀ (hcalls u (hsince u hu)) hxy
  exact ⟨hend.length, hend.bindings⟩

/-- There are so many ways of choosing one of some elements several times. -/
theorem length_sections_replicate {α : Type} (as : List α) (n : Nat) :
    (List.replicate n as).sections.length = as.length ^ n := by
  induction n with
  | zero => rfl
  | succ n ih =>
    rw [List.replicate_succ, List.sections, List.length_flatMap]
    simp [ih, Nat.pow_succ]

/-- Elements of a list, one after the other, are one way of choosing from it several times. -/
theorem mem_sections_replicate {α : Type} {as choice : List α} (h : ∀ a ∈ choice, a ∈ as) :
    choice ∈ (List.replicate choice.length as).sections := by
  rw [List.mem_sections]
  induction choice with
  | nil => exact .nil
  | cons a choice ih =>
    exact .cons (h a (List.mem_cons_self ..)) (ih fun x hx => h x (List.mem_cons_of_mem a hx))

/-- **An enumeration reports no more matches than there are ways of choosing nodes.** -/
theorem length_reports_le (h₀ : t₀.WellFormed) (hts : ∀ u ∈ ts, t₀.Uncounted u) :
    ((start p mode t₀).reports ts).length ≤ p.matchBound t₀ := by
  let choices : List (Option NodeId) := none :: t₀.attached.map some
  let pairs := t₀.attached ×ˢ (List.replicate p.names.length choices).sections
  have hroots : (start p mode t₀).rootsLeft.Nodup :=
    h₀.attached_nodup.sublist (rootsOf_sublist h₀ p)
  have hsub : ((start p mode t₀).reports ts).map (fun m => (m.root, m.bindings)) ⊆ pairs := by
    intro x hx
    obtain ⟨m, hm, rfl⟩ := List.mem_map.mp hx
    obtain ⟨hlength, hattached⟩ := bindings_attached h₀ hts hm
    refine List.mem_product.mpr ⟨root_mem_attached h₀ p mode hm, ?_⟩
    rw [← hlength]
    refine mem_sections_replicate fun o ho => ?_
    cases o with
    | none => exact List.mem_cons_self ..
    | some id => exact List.mem_cons_of_mem _ (List.mem_map_of_mem (hattached id ho))
  have hle := (List.subperm_of_subset (reports_distinct hroots) hsub).length_le
  rw [List.length_map, List.length_product, length_sections_replicate] at hle
  simpa [choices, matchBound] using hle

end Pattern

end Constituency
