import Constituency.Proofs.Surgery.Uncounted
import Constituency.Proofs.Tree.Order

/-!
# Enumerations notice every change of structure

An enumeration keeps the index that was made when it began, and compares revisions to find out
whether that index still holds. Between two requests for a match the tree may be changed in any way:
by single requests, by scripts applied to matches, by scripts applied to all matches of a pattern.

All of these are sequences of requests with known nodes, and for those the revision tells the
structure. So what is invariant over a whole course of events is short (`Enumeration.Following`):
the enumeration has kept its index and its revision, and it has been stopped only when the tree had
moved on from there. While the revisions agree, the attached nodes are those that the index was made
from, and an index made now would be the same. Once they differ they differ for ever.
-/

namespace Constituency

open Constituency.Tree

namespace Tree

/-- One change of a tree: a request with known nodes, a script applied to a match, or a script
applied to all matches of a pattern. -/
inductive Change : Tree → Tree → Prop where
  | request {t : Tree} (r : Request) : r.isKnown t = true → Change t (t.request r).1
  | apply {t : Tree} (script : Script) {m : Match} : m.Known t.nodes.size →
    Change t (script.apply t m).tree
  | process {t : Tree} (rule : Rule) (limit : Nat) : Change t (rule.run limit t).1

/-- A change of labels or of detached nodes. -/
inductive QuietChange : Tree → Tree → Prop where
  | request {t : Tree} (r : Request) : r.isKnown t = true → r.keepsStructure t = true →
    QuietChange t (t.request r).1
  | apply {t : Tree} (script : Script) {m : Match} : m.Known t.nodes.size →
    script.isUncounted t m = true → QuietChange t (script.apply t m).tree
  | process {t : Tree} (rule : Rule) (limit : Nat) :
    (∀ o ∈ rule.script.operations, o.isLabelling = true) → QuietChange t (rule.run limit t).1

/-- A run of changes. -/
abbrev Changes : Tree → Tree → Prop := Relation.ReflTransGen Change

variable {t u : Tree}

theorem Change.edits (h : Change t u) (ht : t.WellFormed) : Edits t u := by
  cases h with
  | request r hr =>
    rw [Tree.request, if_pos hr]
    exact .single hr
  | apply script hm => exact (script.apply_processed ht hm).edits
  | process rule limit => exact (rule.run_processed limit ht).edits

theorem Changes.edits (h : Changes t u) (ht : t.WellFormed) : Edits t u := by
  induction h with
  | refl => exact .refl t
  | tail _ hc ih => exact ih.trans (hc.edits (ht.edits ih).1)

theorem QuietChange.change (h : QuietChange t u) : Change t u := by
  cases h with
  | request r hr _ => exact .request r hr
  | apply script hm _ => exact .apply script hm
  | process rule limit _ => exact .process rule limit

theorem QuietChange.revision_eq (h : QuietChange t u) (ht : t.WellFormed) :
    u.revision = t.revision := by
  cases h with
  | request r hr hkeeps =>
    rw [Tree.request, if_pos hr]
    exact ((revision_perform ht hr).1 hkeeps).1
  | apply script _ hun => exact (script.apply_uncounted ht hun).revision
  | process rule limit hlabels => exact (rule.runFrom_uncounted hlabels limit _ ht).revision

end Tree

namespace Enumeration

/-! ## What asking for a match keeps -/

theorem tryRoots_alike (t : Tree) (roots : List NodeId) (e : Enumeration) :
    Alike e (e.tryRoots t roots).2 := by
  induction roots generalizing e with
  | nil => exact ⟨rfl, rfl, rfl, rfl, rfl⟩
  | cons r rs ih =>
    rw [tryRoots_cons]
    split
    · rename_i hfound
      exact (e.alike_turnTo r rs).trans (resume_some hfound).1
    · exact (e.alike_turnTo r rs).trans (ih _)

theorem next_alike {e : Enumeration} {t : Tree} (h : e.isStale t = false) :
    Alike e (e.next t).2 := by
  rw [next, if_neg (by rw [h]; exact Bool.false_ne_true)]
  split
  · rename_i hfound
    exact (resume_some hfound).1
  · exact tryRoots_alike t e.roots e

theorem next_of_isStale {e : Enumeration} {t : Tree} (h : e.isStale t = true) :
    e.next t = (none, { e with stale := true }) := by
  rw [next, if_pos h]

/-! ## Courses of events -/

/-- What can happen next to a tree and an enumeration of matches in it. -/
inductive Event : Tree × Enumeration → Tree × Enumeration → Prop where
  | change {t u : Tree} (e : Enumeration) : Change t u → Event (t, e) (u, e)
  | next (t : Tree) (e : Enumeration) : Event (t, e) (t, (e.next t).2)

/-- Changes of the tree and requests for a match, in any order. -/
abbrev Course : Tree × Enumeration → Tree × Enumeration → Prop := Relation.ReflTransGen Event

/-- What happens if only labels and detached nodes are changed. -/
inductive QuietEvent : Tree × Enumeration → Tree × Enumeration → Prop where
  | change {t u : Tree} (e : Enumeration) : QuietChange t u → QuietEvent (t, e) (u, e)
  | next (t : Tree) (e : Enumeration) : QuietEvent (t, e) (t, (e.next t).2)

/-- Quiet changes of the tree and requests for a match, in any order. -/
abbrev QuietCourse : Tree × Enumeration → Tree × Enumeration → Prop :=
  Relation.ReflTransGen QuietEvent

theorem QuietCourse.course {x y : Tree × Enumeration} (h : QuietCourse x y) : Course x y := by
  refine Relation.ReflTransGen.mono ?_ _ _ h
  intro a b hab
  cases hab with
  | change e hc => exact .change e hc.change
  | next t e => exact .next t e

/-- An enumeration that began in a state of a tree, after changes of the tree. -/
structure Following (t₀ : Tree) (x : Tree × Enumeration) : Prop where
  edits : Edits t₀ x.1
  index : x.2.index = Index.build t₀
  revision : x.2.revision = t₀.revision
  stopped : x.2.stale = true → x.1.revision ≠ t₀.revision

variable {t₀ : Tree} {x y : Tree × Enumeration}

theorem following_start (p : Pattern) (mode : Mode) (t₀ : Tree) :
    Following t₀ (t₀, start p mode t₀) :=
  ⟨.refl t₀, rfl, rfl, fun h => absurd h (by simp [start])⟩

/-- An enumeration is stale exactly if the tree is in another state than when it began. -/
theorem Following.isStale_iff (h : Following t₀ x) :
    x.2.isStale x.1 = true ↔ x.1.revision ≠ t₀.revision := by
  rw [isStale, Bool.or_eq_true, bne_iff_ne, h.revision]
  exact ⟨fun hs => hs.elim h.stopped id, .inr⟩

/-- **Every event keeps the invariant**, and the revision does not go down. -/
theorem Following.event (h : Following t₀ x) (h₀ : t₀.WellFormed) (hy : Event x y) :
    Following t₀ y ∧ x.1.revision ≤ y.1.revision := by
  cases hy with
  | @change t u e hc =>
    have ht := (h₀.edits h.edits).1
    have hedits := hc.edits ht
    have hle := hedits.revision_le ht
    refine ⟨⟨h.edits.trans hedits, h.index, h.revision, fun hs => ?_⟩, hle⟩
    -- once the revision has passed that of the beginning, it stays beyond it
    have hne : t.revision ≠ t₀.revision := h.stopped hs
    have hge : t₀.revision ≤ t.revision := h.edits.revision_le h₀
    show u.revision ≠ t₀.revision
    omega
  | next t e =>
    refine ⟨?_, Nat.le_refl _⟩
    cases hs : e.isStale t with
    | true =>
      rw [next_of_isStale hs]
      exact ⟨h.edits, h.index, h.revision, fun _ => h.isStale_iff.mp hs⟩
    | false =>
      have hsame := next_alike hs
      exact ⟨h.edits, hsame.index.trans h.index, hsame.revision.trans h.revision,
        fun hstale => h.stopped (hsame.stale.symm.trans hstale)⟩

theorem Following.course (h : Following t₀ x) (h₀ : t₀.WellFormed) (hy : Course x y) :
    Following t₀ y ∧ x.1.revision ≤ y.1.revision := by
  induction hy with
  | refl => exact ⟨h, Nat.le_refl _⟩
  | tail _ he ih =>
    obtain ⟨hnext, hle⟩ := ih.1.event h₀ he
    exact ⟨hnext, Nat.le_trans ih.2 hle⟩

/-- What happens to the tree in a course of events is a run of known requests. -/
theorem Course.edits (h : Course x y) (hx : x.1.WellFormed) : Edits x.1 y.1 := by
  induction h with
  | refl => exact .refl _
  | tail _ he ih =>
    cases he with
    | change e hc => exact ih.trans (hc.edits (hx.edits ih).1)
    | next t e => exact ih

theorem QuietCourse.revision_eq (h : QuietCourse x y) (hx : x.1.WellFormed) :
    y.1.revision = x.1.revision := by
  induction h with
  | refl => rfl
  | tail hxy he ih =>
    have hy := (hx.edits (Course.edits (QuietCourse.course hxy) hx)).1
    cases he with
    | change e hc => exact (hc.revision_eq hy).trans ih
    | next t e => exact ih

/-- An index made now is the one that a fresh enumeration holds. -/
theorem Following.index_eq (h : Following t₀ x) (h₀ : t₀.WellFormed)
    (hs : x.2.isStale x.1 = false) :
    x.2.index.preorder = (Index.build x.1).preorder ∧
      ∀ n, x.2.index.position n = (Index.build x.1).position n ∧
        x.2.index.span n = (Index.build x.1).span n := by
  have hrev : x.1.revision = t₀.revision := by
    refine Decidable.of_not_not fun hne => ?_
    rw [h.isStale_iff.mpr hne] at hs
    exact absurd hs (by simp)
  have hsame := h.edits.sameAttached h₀ hrev
  have ht := (h₀.edits h.edits).1
  rw [h.index]
  exact ⟨hsame.attached.symm, fun n =>
    ⟨(Index.position_along hsame.along h₀ ht Function.injective_id n).symm,
      (Index.span_along hsame.along h₀ ht Function.injective_id n).symm⟩⟩

/-- **The revision tells the structure, and enumerations rely on it rightly.**

In any run of requests and scripts the revision does not go down, and two states with one revision
have the same root and the same attached nodes with the same parents and children.

For an enumeration, whatever happens to the tree between requests for a match: as long as it is not
stale, its pre-order, positions and spans are those of an index made now. Once it is stale it stays
so, and reports nothing more. It is stale after every change of the structure of the attached part;
changes of labels and of detached nodes make no difference to it. -/
theorem notices_restructuring (t₀ : Tree) (h₀ : t₀.WellFormed) :
    (∀ t u, Changes t₀ t → Changes t u →
      t.revision ≤ u.revision ∧ (u.revision = t.revision → SameAttached t u)) ∧
    ∀ (p : Pattern) (mode : Mode) (t : Tree) (e : Enumeration),
      Course (t₀, start p mode t₀) (t, e) →
        (e.isStale t = false →
          e.index.preorder = (Index.build t).preorder ∧
            ∀ n, e.index.position n = (Index.build t).position n ∧
              e.index.span n = (Index.build t).span n) ∧
        (e.isStale t = true → ∀ u e', Course (t, e) (u, e') →
          e'.isStale u = true ∧ (e'.next u).1 = none) ∧
        (∀ u e', Course (t, e) (u, e') → ¬ SameAttached t u → e'.isStale u = true) ∧
        (∀ u e', QuietCourse (t, e) (u, e') → e'.isStale u = e.isStale t) := by
  constructor
  · intro t u ht hu
    have hwf := (h₀.edits (ht.edits h₀)).1
    have hedits := hu.edits hwf
    exact ⟨hedits.revision_le hwf, hedits.sameAttached hwf⟩
  · intro p mode t e hcourse
    have hfollows := ((following_start p mode t₀).course h₀ hcourse).1
    have hwf := (h₀.edits hfollows.edits).1
    have hge : t₀.revision ≤ t.revision := hfollows.edits.revision_le h₀
    refine ⟨hfollows.index_eq h₀, ?_, ?_, ?_⟩
    · intro hs u e' hu
      obtain ⟨hlater, hle⟩ := hfollows.course h₀ hu
      have hne : t.revision ≠ t₀.revision := hfollows.isStale_iff.mp hs
      have hstale : e'.isStale u = true := by
        refine hlater.isStale_iff.mpr ?_
        dsimp only at hle ⊢
        omega
      exact ⟨hstale, by rw [next_of_isStale hstale]⟩
    · intro u e' hu hchanged
      obtain ⟨hlater, hle⟩ := hfollows.course h₀ hu
      have hne : u.revision ≠ t.revision := fun hrev =>
        hchanged ((Course.edits hu hwf).sameAttached hwf hrev)
      refine hlater.isStale_iff.mpr ?_
      dsimp only at hle ⊢
      omega
    · intro u e' hu
      have hlater := (hfollows.course h₀ hu.course).1
      have hrev : u.revision = t.revision := hu.revision_eq hwf
      rw [Bool.eq_iff_iff, hlater.isStale_iff, hfollows.isStale_iff]
      dsimp only
      rw [hrev]

/-- In `(S (N a) (V b))` the `N` is detached, which an enumeration notices that has not reported it
yet; it does not matter to it that the `V` is called `N` from then on. -/
theorem notices_restructuring_detach :
    let c : Constituent := .node "S" [.node "N" [.node "a" []], .node "V" [.node "b" []]]
    let t := Tree.ofConstituent (some c)
    let p : Pattern :=
      ⟨"N", .mk ⟨false, .oneOf [.literal "N"], []⟩ none none, [], [], []⟩
    let e := start p .allBindings t
    t.WellFormed ∧ ((e.next (t.request (.detach 1)).1).1 = none) ∧
      e.isStale (t.request (.setLabel 3 "N")).1 = false := by
  intro c t p e
  have h : t.WellFormed := wellFormed_ofConstituent (some c)
  have hall := (notices_restructuring t h).2 p .allBindings t e .refl
  have hdetach : Course (t, e) ((t.request (.detach 1)).1, e) :=
    .single (.change e (.request (.detach 1) (by decide)))
  have hchanged : ¬ SameAttached t (t.request (.detach 1)).1 := fun hsame =>
    absurd hsame.attached (by decide)
  have hstale := hall.2.2.1 _ e hdetach hchanged
  have hlabel : QuietCourse (t, e) ((t.request (.setLabel 3 "N")).1, e) :=
    .single (.change e (.request (.setLabel 3 "N") (by decide) rfl))
  refine ⟨h, by rw [next_of_isStale hstale], ?_⟩
  exact hall.2.2.2 _ e hlabel

end Enumeration

end Constituency
