import Constituency.Proofs.Renumbering.Candidates
import Constituency.Proofs.Search.Matches

/-!
# Searching renumbered arenas

A search takes a renumbered arena for the one it knows. What it does next depends on whether nodes
fit descriptions and on the candidates of relations, and both correspond; so every step of a
machine, started from corresponding goals, bindings and choices, leads to corresponding ones
(`step_renumber`), and by the induction of the run so does the whole run (`run_renumber`). Solutions
that were reported are recognized, because the numbering is injective.

An enumeration keeps the index of its tree and its own count of revisions. It corresponds to one of
a renumbered arena that keeps an index with the same order and the same spans, and a count that
differs by what the revisions differ by.
-/

namespace Constituency

open Constituency.Tree

/-- The same goal for the corresponding node. -/
def Goal.renumber (f : NodeId → NodeId) : Goal → Goal
  | .fits id p => .fits (f id) p
  | .meets id c => .meets (f id) c

/-- The same choice between goals for corresponding nodes. -/
def Choice.renumber (f : NodeId → NodeId) (c : Choice) : Choice :=
  ⟨c.goals.map (Goal.renumber f), c.bindings.renumber f, c.alternatives.map (Goal.renumber f)⟩

/-- The same state of a search for corresponding nodes. -/
def Machine.renumber (f : NodeId → NodeId) (m : Machine) : Machine :=
  ⟨m.goals.map (Goal.renumber f), m.bindings.renumber f, m.choices.map (Choice.renumber f)⟩

/-- The same match of corresponding nodes. -/
def Match.renumber (f : NodeId → NodeId) (m : Match) : Match :=
  ⟨f m.root, m.bindings.renumber f, m.names⟩

variable {f : NodeId → NodeId} {k : Nat} {s s' : Scene}

theorem Goal.trial?_renumber (f : NodeId → NodeId) (g : Goal) :
    (g.renumber f).trial? = g.trial?.map (Goal.renumber f) := by
  rcases g with ⟨id, p⟩ | ⟨id, c⟩
  · rfl
  · cases c <;> rfl

namespace Machine

theorem start_renumber (f : NodeId → NodeId) (p : NodePattern) (id : NodeId) (count : Nat) :
    start p (f id) count = (start p id count).renumber f := by
  rw [start, start, renumber, Bindings.renumber_unbound]
  rfl

theorem branch_renumber (f : NodeId → NodeId) (m : Machine) (gs : List Goal) :
    (m.renumber f).branch (gs.map (Goal.renumber f)) = (m.branch gs).map (renumber f) := by
  rcases gs with _ | ⟨g, _ | ⟨h, gs⟩⟩ <;> rfl

theorem backtrack_renumber (f : NodeId → NodeId) (cs : List Choice) :
    backtrack (cs.map (Choice.renumber f)) = (backtrack cs).map (renumber f) := by
  induction cs with
  | nil => rfl
  | cons c cs ih =>
    rcases c with ⟨goals, b, _ | ⟨g, _ | ⟨h, gs⟩⟩⟩
    · exact ih
    · rfl
    · rfl

/-- Working on corresponding goals. -/
theorem work_renumber (h : s.Twins f k s') (possible : Bool) (m : Machine) (g : Goal) :
    (m.renumber f).work s' possible (g.renumber f) =
      (m.work s possible g).map (renumber f) := by
  have hmeets : ∀ id (cs : List Condition),
      cs.map (Goal.meets (f id)) = (cs.map (Goal.meets id)).map (Goal.renumber f) :=
    fun id cs => by rw [List.map_map]; rfl
  cases g with
  | fits id p =>
    obtain ⟨d, v, c⟩ := p
    rw [Goal.renumber, work, work]
    show Option.map _ (s'.enter d v (f id) (m.bindings.renumber f)) = _
    rw [h.enter, Option.map_map, Option.map_map]
    congr 1
    funext b
    cases c <;> rfl
  | meets id c =>
    cases c with
    | all cs =>
      rw [Goal.renumber, work, work, hmeets]
      simp only [renumber, Option.map_some, List.map_append]
    | any cs =>
      rw [Goal.renumber, work, work, hmeets, branch_renumber]
    | not c => cases possible <;> rfl
    | optional c => cases possible <;> rfl
    | related r p =>
      have hcandidates := r.candidates_renumber h m.bindings id
      rw [Goal.renumber, work, work, ← branch_renumber, List.map_map]
      show (m.renumber f).branch
        ((r.candidates s' (m.bindings.renumber f) (f id)).map (Goal.fits · p)) = _
      rw [hcandidates, List.map_map]
      rfl

/-- **Corresponding machines take corresponding steps.** -/
theorem step_renumber (h : s.Twins f k s') (possible : Bool) (m : Machine) (g : Goal) :
    (m.renumber f).step s' possible (g.renumber f) =
      (m.step s possible g).map (renumber f) := by
  rw [step, step, work_renumber h, Option.map_or, ← backtrack_renumber]
  rfl

theorem isPossible_renumber {b : Bindings} {g : Goal}
    (htrial : ∀ t, g.trial? = some t →
      run s' (renumber f ⟨[t], b, []⟩) = (run s ⟨[t], b, []⟩).map (renumber f)) :
    isPossible s' (b.renumber f) (g.renumber f) = isPossible s b g := by
  unfold isPossible
  rw [g.trial?_renumber]
  cases ht : g.trial? with
  | none => rfl
  | some t =>
    have hrun := htrial t ht
    show (run s' (renumber f ⟨[t], b, []⟩)).isSome = (run s ⟨[t], b, []⟩).isSome
    rw [hrun, Option.isSome_map]

/-- **Corresponding machines run to corresponding ends.** -/
theorem run_renumber (h : s.Twins f k s') (m : Machine) :
    run s' (m.renumber f) = (run s m).map (renumber f) := by
  induction m using run_induction s with
  | done b cs =>
    rw [run_nil]
    exact run_nil ..
  | work g gs b cs htrial ih =>
    have hstep : step s' (isPossible s b g) (renumber f ⟨gs, b, cs⟩) (g.renumber f) =
        (step s (isPossible s b g) ⟨gs, b, cs⟩ g).map (renumber f) := step_renumber h ..
    rw [run_cons]
    show run s' ⟨g.renumber f :: gs.map (Goal.renumber f), b.renumber f,
      cs.map (Choice.renumber f)⟩ = _
    rw [run_cons, isPossible_renumber htrial]
    show (step s' (isPossible s b g) (renumber f ⟨gs, b, cs⟩) (g.renumber f)).bind (run s') = _
    rw [hstep]
    cases hm : step s (isPossible s b g) ⟨gs, b, cs⟩ g with
    | none => rfl
    | some m => exact ih m hm

/-- A machine that has found a solution goes back to its latest choice. -/
def resumed (m : Machine) : Option Machine :=
  if m.goals.isEmpty then backtrack m.choices else some m

theorem next_eq (s : Scene) (m : Machine) :
    m.next s = match m.resumed.bind (run s) with
      | some m' => (some m'.bindings, m')
      | none => (none, { m with goals := [], choices := [] }) :=
  rfl

theorem resumed_renumber (f : NodeId → NodeId) (m : Machine) :
    (m.renumber f).resumed = m.resumed.map (renumber f) := by
  rw [resumed, resumed, apply_ite (Option.map (renumber f)), ← backtrack_renumber, renumber,
    List.isEmpty_map]
  rfl

theorem next_renumber (h : s.Twins f k s') (m : Machine) :
    (m.renumber f).next s' =
      Prod.map (Option.map (Bindings.renumber f)) (renumber f) (m.next s) := by
  have hrun : (m.renumber f).resumed.bind (run s') =
      (m.resumed.bind (run s)).map (renumber f) := by
    rw [resumed_renumber, Option.bind_map, Option.map_bind]
    congr 1
    exact funext (run_renumber h)
  rw [next_eq, next_eq, hrun]
  cases m.resumed.bind (run s) <;> rfl

theorem nextUnseen_renumber (h : s.Twins f k s') (seen : List Bindings) (m : Machine) :
    (m.renumber f).nextUnseen s' (seen.map (Bindings.renumber f)) =
      (m.nextUnseen s seen).map (Prod.map (Bindings.renumber f) (renumber f)) := by
  -- here the numbering has to be injective: no new solution may look like one reported before
  have hseen : ∀ b : Bindings, (seen.map (Bindings.renumber f)).contains (b.renumber f) =
      seen.contains b := by
    intro b
    rw [Bool.eq_iff_iff, List.contains_iff_mem, List.contains_iff_mem,
      List.mem_map_of_injective (Bindings.renumber_injective h.tree.injective)]
  induction m using nextUnseen.induct s seen with
  | case1 m m' hnext =>
    rw [nextUnseen, nextUnseen, next_renumber h, hnext]
    rfl
  | case2 m b m' hnext hb ih =>
    rw [nextUnseen, nextUnseen, next_renumber h, hnext]
    dsimp only [Prod.map, Option.map_some]
    rw [hseen, if_pos hb, if_pos hb, ih]
  | case3 m b m' hnext hb =>
    rw [nextUnseen, nextUnseen, next_renumber h, hnext]
    dsimp only [Prod.map, Option.map_some]
    rw [hseen, if_neg hb, if_neg hb]
    rfl

end Machine

/-! ## Enumerations -/

/-- The same state of an enumeration for corresponding nodes, with the index of their arena. -/
def Enumeration.renumber (f : NodeId → NodeId) (k : Nat) (i : Index) (e : Enumeration) :
    Enumeration :=
  { pattern := e.pattern
    mode := e.mode
    index := i
    revision := e.revision + k
    roots := e.roots.map f
    current := e.current.map (Prod.map f (Machine.renumber f))
    seen := e.seen.map (Bindings.renumber f)
    stale := e.stale }

namespace Enumeration

variable {t u : Tree} {i : Index} {e : Enumeration}

theorem rootsOf_renumber (h : t.Twins f k u) (p : Pattern) :
    rootsOf p (Index.build u) = (rootsOf p (Index.build t)).map f := by
  unfold rootsOf
  split
  · rw [roots_of_labels h.source, roots_of_labels h.target, h.attached, List.filter_map]
    congr 2
    funext n
    show decide (u.label (f n) ∈ _) = decide (t.label n ∈ _)
    rw [h.label]
  · exact h.attached

theorem start_renumber (h : t.Twins f k u) (p : Pattern) (mode : Mode) :
    start p mode u = (start p mode t).renumber f k (Index.build u) := by
  show (⟨p, mode, Index.build u, u.revision, rootsOf p (Index.build u), none, [], false⟩ :
    Enumeration) = _
  rw [rootsOf_renumber h, h.revision]
  rfl

theorem turnTo_renumber (f : NodeId → NodeId) (k : Nat) (i : Index) (e : Enumeration) (r : NodeId)
    (rs : List NodeId) :
    (e.renumber f k i).turnTo (f r) (rs.map f) = (e.turnTo r rs).renumber f k i := by
  show (⟨e.pattern, e.mode, i, e.revision + k, rs.map f,
    some (f r, Machine.start e.pattern.root (f r) e.pattern.names.length), [], e.stale⟩ :
      Enumeration) = _
  rw [Machine.start_renumber]
  rfl

theorem isStale_renumber (h : t.Twins f k u) (e : Enumeration) :
    (e.renumber f k i).isStale u = e.isStale t := by
  unfold isStale renumber
  rw [h.revision]
  congr 1
  rw [Bool.eq_iff_iff, bne_iff_ne, bne_iff_ne]
  exact not_congr (Nat.add_right_cancel_iff)

section step

variable (h : t.Twins f k u) (hi : e.index.Renumbered f i)

include h hi

theorem resume_renumber :
    (e.renumber f k i).resume u =
      (e.resume t).map (Prod.map (Match.renumber f) (renumber f k i)) := by
  have hscene : Scene.Twins f k ⟨t, e.index, e.pattern.marks⟩ ⟨u, i, e.pattern.marks⟩ :=
    ⟨h, hi, rfl⟩
  unfold resume
  cases hcurrent : e.current with
  | none =>
    rw [show (e.renumber f k i).current = none by rw [renumber, hcurrent]; rfl]
    rfl
  | some current =>
    obtain ⟨root, machine⟩ := current
    have hnext := Machine.nextUnseen_renumber hscene e.seen machine
    rw [show (e.renumber f k i).current = some (f root, machine.renumber f) by
      rw [renumber, hcurrent]; rfl]
    show ((machine.renumber f).nextUnseen ⟨u, i, e.pattern.marks⟩
      (e.seen.map (Bindings.renumber f)) >>= _) = Option.map _ (machine.nextUnseen _ _ >>= _)
    rw [hnext]
    cases machine.nextUnseen ⟨t, e.index, e.pattern.marks⟩ e.seen with
    | none => rfl
    | some found =>
      obtain ⟨b, left⟩ := found
      cases hmode : e.mode <;> simp [renumber, hmode, Match.renumber]

theorem tryRoots_renumber (roots : List NodeId) :
    (e.renumber f k i).tryRoots u (roots.map f) =
      Prod.map (Option.map (Match.renumber f)) (renumber f k i) (e.tryRoots t roots) := by
  induction roots generalizing e with
  | nil => rfl
  | cons r rs ih =>
    rw [List.map_cons, tryRoots_cons, tryRoots_cons, turnTo_renumber,
      resume_renumber h (e := e.turnTo r rs) hi]
    cases (e.turnTo r rs).resume t with
    | none => exact ih (e := e.turnTo r rs) hi
    | some found => rfl

/-- **Corresponding enumerations give corresponding matches**, and go on as such. -/
theorem next_renumber :
    (e.renumber f k i).next u =
      Prod.map (Option.map (Match.renumber f)) (renumber f k i) (e.next t) := by
  unfold next
  rw [isStale_renumber h, resume_renumber h hi]
  split
  · rfl
  · cases e.resume t with
    | none => exact tryRoots_renumber h hi e.roots
    | some found => rfl

end step

/-- A match leaves an enumeration of the same tree behind. -/
theorem alike_of_next {e' : Enumeration} {m : Match} (hm : e.next t = (some m, e')) :
    Alike e e' := by
  have hfresh : e.isStale t = false := by
    refine Bool.eq_false_iff.mpr fun hstale => ?_
    rw [next, if_pos hstale] at hm
    exact absurd (Prod.mk.inj hm).1 (by simp)
  exact (next_outstanding hfresh hm).1

theorem remaining_renumber (h : t.Twins f k u) (hi : e.index.Renumbered f i) :
    (e.renumber f k i).remaining u = (e.remaining t).map (Match.renumber f) := by
  induction e using remaining.induct t with
  | case1 e e' hnext =>
    have hnext' := next_renumber h hi
    rw [hnext] at hnext'
    rw [remaining_of_next_none hnext, remaining_of_next_none hnext', List.map_nil]
  | case2 e m e' hnext ih =>
    have hnext' := next_renumber h hi
    rw [hnext] at hnext'
    rw [remaining_of_next hnext, remaining_of_next hnext', List.map_cons,
      ih ((alike_of_next hnext).index ▸ hi)]

end Enumeration

/-- **Corresponding trees have corresponding matches**, in the same order. -/
theorem Pattern.search_renumber {t u : Tree} (h : t.Twins f k u) (p : Pattern) (mode : Mode) :
    p.search mode u = (p.search mode t).map (Match.renumber f) := by
  rw [search, search, Enumeration.start_renumber h]
  exact Enumeration.remaining_renumber h h.build

end Constituency
