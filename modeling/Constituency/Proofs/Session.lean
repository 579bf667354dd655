import Constituency.Proofs.Surgery.Process

/-!
# What can happen to a tree

A session is a tree with the matches that were obtained from it and with the
enumerations that are under way. In any order, nodes of the tree are edited,
patterns are searched for, and scripts are applied to matches, also to matches
that were obtained before the tree was changed.

The invariant is that the tree is well-formed and that every node number that
the session holds is one of its arena. A match may have become stale, and its
nodes detached; they do not leave the arena, and more is not needed.
-/

namespace Constituency

open Constituency.Tree

/-- A tree, the enumerations of its matches, and the matches obtained. -/
structure Session where
  tree : Tree
  enumerations : List Enumeration
  matched : List Match

namespace Session

/-- A session with a new tree. -/
def start (t : Tree) : Session := ⟨t, [], []⟩

/-- What can be done in a session. -/
inductive Step : Session → Session → Prop where
  /-- A request whose nodes are known. -/
  | request {s : Session} (r : Request) : r.isKnown s.tree = true →
    Step s { s with tree := (s.tree.request r).1 }
  /-- A new enumeration. -/
  | enumerate {s : Session} (p : Pattern) (mode : Mode) :
    Step s { s with enumerations := .start p mode s.tree :: s.enumerations }
  /-- The next match of an enumeration. -/
  | advance {s : Session} {e e' : Enumeration} {m : Match} : e ∈ s.enumerations →
    e.next s.tree = (some m, e') →
    Step s { s with enumerations := e' :: s.enumerations, matched := m :: s.matched }
  /-- A script applied to a match obtained at any time before. -/
  | apply {s : Session} (script : Script) {m : Match} : m ∈ s.matched →
    Step s { s with tree := (script.apply s.tree m).tree }
  /-- A script applied to all matches of a pattern. -/
  | process {s : Session} (rule : Rule) (limit : Nat) :
    Step s { s with tree := (rule.run limit s.tree).1 }

/-- The sessions that begin with an empty tree, one node, or a tree built from a labelled tree as it
is read from brackets. -/
inductive Reachable : Session → Prop where
  | empty : Reachable (start .empty)
  | singleton (l : Label) : Reachable (start (.singleton l))
  | built (c : Option Constituent) : Reachable (start (.ofConstituent c))
  | step {s s' : Session} : Reachable s → Step s s' → Reachable s'

/-! ## The invariant -/

/-- The tree is well-formed, and every node number that is held is one of its arena. -/
structure Sound (s : Session) : Prop where
  wellFormed : s.tree.WellFormed
  enumerations : ∀ e ∈ s.enumerations, e.Known s.tree.nodes.size
  matched : ∀ m ∈ s.matched, m.Known s.tree.nodes.size

variable {s s' : Session}

theorem start_sound {t : Tree} (ht : t.WellFormed) : (start t).Sound :=
  ⟨ht, fun _ he => absurd he (by simp [start]), fun _ hm => absurd hm (by simp [start])⟩

/-- Known requests keep a session sound. -/
theorem Sound.withTree (h : s.Sound) {t : Tree} (ht : Edits s.tree t) :
    Sound { s with tree := t } := by
  obtain ⟨hwf, hsize⟩ := h.wellFormed.edits ht
  exact ⟨hwf, fun e he => (h.enumerations e he).mono hsize, fun m hm => (h.matched m hm).mono hsize⟩

/-- **Every step keeps a session sound.** -/
theorem step_sound (h : s.Sound) (hs : Step s s') : s'.Sound := by
  cases hs with
  | request r hr =>
    refine h.withTree ?_
    rw [request, if_pos hr]
    exact .single hr
  | enumerate p mode =>
    refine ⟨h.wellFormed, ?_, h.matched⟩
    intro e he
    rcases List.mem_cons.mp he with rfl | he
    · exact Enumeration.start_known h.wellFormed p mode
    · exact h.enumerations e he
  | @advance e e' m he hnext =>
    obtain ⟨hm, he'⟩ := Enumeration.next_known h.wellFormed (h.enumerations e he) hnext
    refine ⟨h.wellFormed, ?_, ?_⟩
    · intro x hx
      rcases List.mem_cons.mp hx with rfl | hx
      · exact he'
      · exact h.enumerations x hx
    · intro x hx
      rcases List.mem_cons.mp hx with rfl | hx
      · exact hm
      · exact h.matched x hx
  | apply script hm =>
    exact h.withTree (script.apply_processed h.wellFormed (h.matched _ hm)).edits
  | process rule limit => exact h.withTree (rule.run_processed limit h.wellFormed).edits

theorem sound_of_reachable (h : s.Reachable) : s.Sound := by
  induction h with
  | empty => exact start_sound wellFormed_empty
  | singleton l => exact start_sound (wellFormed_singleton l)
  | built c => exact start_sound (wellFormed_ofConstituent c)
  | step _ hs ih => exact step_sound ih hs

/-- **Whatever happens in a session, its tree stays consistent**, and scripts never miss a node: not
when they are applied to a match obtained before, however stale it is, and not when they are applied
to all matches of a pattern. -/
theorem consistent_of_reachable (h : s.Reachable) :
    s.tree.Consistent ∧
      (∀ m ∈ s.matched, ∀ script : Script, ∀ d ∈ (script.apply s.tree m).diagnostics,
        d.isFault = false) ∧
      ∀ (rule : Rule) (limit : Nat), ∀ d ∈ (rule.run limit s.tree).2.diagnostics,
        d.isFault = false := by
  have hs := sound_of_reachable h
  refine ⟨hs.wellFormed.consistent, ?_, ?_⟩
  · intro m hm script
    exact (script.apply_processed hs.wellFormed (hs.matched m hm)).proper
  · intro rule limit
    exact (rule.run_processed limit hs.wellFormed).proper

/-- In `(S (N a))` the root is put below its own child, which makes a copy of it there, and then
every `N` is deleted. -/
theorem consistent_after_process :
    let t := Tree.ofConstituent (some (.node "S" [.node "N" [.node "a" []]]))
    let p : Pattern :=
      ⟨"N=n", .mk ⟨false, .oneOf [.literal "N"], []⟩ (some 0) none, ["n"], [true], []⟩
    let rule : Rule := ⟨p, ⟨"delete n", [.delete ["n"]], []⟩⟩
    Request.isKnown t (.pushChild 1 0) = true ∧
      (rule.run 5 (t.request (.pushChild 1 0)).1).1.Consistent := by
  intro t p rule
  have hknown : Request.isKnown t (.pushChild 1 0) = true := by decide
  have session : ∀ (t : Tree) (r : Request) (rule : Rule), (start t).Reachable →
      r.isKnown t = true → (rule.run 5 (t.request r).1).1.Consistent := fun t r rule h hr =>
    (consistent_of_reachable ((h.step (.request r hr)).step (.process rule 5))).1
  exact ⟨hknown, session t (.pushChild 1 0) rule (.built _) hknown⟩

end Session

end Constituency
