import Constituency.Search.Row
import Constituency.Search.Solutions

/-!
# Finding solutions one at a time

A machine works through goals: a node must fit a pattern, or meet a condition. Relations and
disjunctions leave a choice behind, with the goals and the bindings that were at hand when it was
made and the alternatives not yet tried. When a goal fails, the machine goes back to the latest
choice and takes its next alternative. When no goal is left, the bindings are a solution; the
search is resumed by going back to the latest choice. A negated or an optional condition is first
tried in a machine of its own, whose bindings are dropped.

A machine stands for a row of branches: the goals at hand, and then, choice by choice, the goals
that each alternative would bring back. Working on a goal puts smaller branches in the place of
the first one, and going back drops it. No row of numbers can shrink for ever in this way, so every
search ends.
-/

namespace Constituency

/-- Something a machine still has to establish about a node. -/
inductive Goal where
  | fits (id : NodeId) (p : NodePattern)
  | meets (id : NodeId) (c : Condition)

namespace Goal

/-- The number of patterns and conditions in a goal. -/
def size : Goal → Nat
  | fits _ p => p.size
  | meets _ c => c.size

/-- The number of patterns and conditions in several goals. -/
def sizeAll : List Goal → Nat
  | [] => 0
  | g :: gs => g.size + sizeAll gs

/-- What has to be tried apart before a goal is worked on. -/
def trial? : Goal → Option Goal
  | meets id (.not c) => some (meets id c)
  | meets id (.optional c) => some (meets id c)
  | _ => none

end Goal

/-- A choice made on the way: the goals and the bindings at hand when it was made, and the
alternatives not yet tried, in order. -/
structure Choice where
  goals : List Goal
  bindings : Bindings
  alternatives : List Goal

/-- A search under way: the goals still to be reached, what has been bound, and the choices made,
the latest first. A machine without goals has found a solution or has come to its end. -/
structure Machine where
  goals : List Goal
  bindings : Bindings
  choices : List Choice

namespace Machine

/-- A machine that looks for the ways in which a node fits a pattern. -/
def start (p : NodePattern) (id : NodeId) (count : Nat) : Machine :=
  ⟨[.fits id p], .unbound count, []⟩

/-- Goes on with the first of several alternatives and leaves the others behind as a choice. -/
def branch (m : Machine) : List Goal → Option Machine
  | [] => none
  | [g] => some { m with goals := g :: m.goals }
  | g :: gs => some ⟨g :: m.goals, m.bindings, ⟨m.goals, m.bindings, gs⟩ :: m.choices⟩

/-- Goes back to the latest choice that has an alternative left. -/
def backtrack : List Choice → Option Machine
  | [] => none
  | ⟨_, _, []⟩ :: cs => backtrack cs
  | ⟨goals, b, [g]⟩ :: cs => some ⟨g :: goals, b, cs⟩
  | ⟨goals, b, g :: gs⟩ :: cs => some ⟨g :: goals, b, ⟨goals, b, gs⟩ :: cs⟩

/-- Works on a goal that has been taken from a machine, unless it fails. `possible` says whether
what had to be tried apart has a solution. -/
def work (s : Scene) (possible : Bool) (m : Machine) : Goal → Option Machine
  | .fits id (.mk d v c) =>
    (s.enter d v id m.bindings).map fun b =>
      ⟨(c.map (.meets id)).toList ++ m.goals, b, m.choices⟩
  | .meets id (.all cs) => some { m with goals := cs.map (.meets id) ++ m.goals }
  | .meets id (.any cs) => m.branch (cs.map (.meets id))
  | .meets _ (.not _) => if possible then none else some m
  | .meets id (.optional c) =>
    some (if possible then { m with goals := .meets id c :: m.goals } else m)
  | .meets id (.related r p) => m.branch ((r.candidates s m.bindings id).map (.fits · p))

/-- Works on a goal, or goes back where it fails. -/
def step (s : Scene) (possible : Bool) (m : Machine) (g : Goal) : Option Machine :=
  (m.work s possible g).or (backtrack m.choices)

end Machine

/-! ## Every search ends -/

/-- The sizes of the branches that a choice holds. -/
def Choice.sizes (c : Choice) : List Nat :=
  c.alternatives.map fun g => g.size + Goal.sizeAll c.goals

namespace Machine

/-- The sizes of the branches that several choices hold. -/
def sizesOf (cs : List Choice) : List Nat := cs.flatMap Choice.sizes

/-- The sizes of the branches that a machine stands for. -/
def row (m : Machine) : Row := ⟨Goal.sizeAll m.goals :: sizesOf m.choices⟩

/-- What is read off the branches of a machine one after the other, `f` being read off each, is left
unchanged by going back: only choices without alternatives are dropped. -/
theorem backtrack_flatMap {β : Type} (f : List Goal → Bindings → List β) {cs : List Choice}
    {m : Machine} (h : backtrack cs = some m) :
    f m.goals m.bindings ++
        m.choices.flatMap (fun c => c.alternatives.flatMap fun g => f (g :: c.goals) c.bindings) =
      cs.flatMap fun c => c.alternatives.flatMap fun g => f (g :: c.goals) c.bindings := by
  induction cs using backtrack.induct with
  | case1 => exact absurd h (by simp [backtrack])
  | case2 goals b cs ih =>
    rw [backtrack] at h
    rw [ih h]
    rfl
  | case3 goals b g cs =>
    rw [backtrack] at h
    obtain rfl := Option.some.inj h
    simp
  | case4 goals b g gs cs hgs =>
    rw [backtrack] at h
    · obtain rfl := Option.some.inj h
      simp
    · exact hgs

theorem backtrack_row {cs : List Choice} {m : Machine} (h : backtrack cs = some m) :
    m.row.sizes = sizesOf cs := by
  have hsizes := backtrack_flatMap (fun gs _ => [Goal.sizeAll gs]) h
  simp only [← List.map_eq_flatMap] at hsizes
  exact hsizes

theorem branch_row {m m' : Machine} {gs : List Goal} (h : m.branch gs = some m') :
    m'.row.sizes = gs.map (fun g => g.size + Goal.sizeAll m.goals) ++ sizesOf m.choices := by
  unfold branch at h
  split at h
  · exact absurd h (by simp)
  · obtain rfl := Option.some.inj h
    rfl
  · obtain rfl := Option.some.inj h
    rfl

theorem sizeAll_append (gs hs : List Goal) :
    Goal.sizeAll (gs ++ hs) = Goal.sizeAll gs + Goal.sizeAll hs := by
  induction gs with
  | nil => simp [Goal.sizeAll]
  | cons g gs ih => simp only [List.cons_append, Goal.sizeAll, ih, Nat.add_assoc]

theorem sizeAll_meets (id : NodeId) (cs : List Condition) :
    Goal.sizeAll (cs.map (.meets id)) = Condition.sizeAll cs := by
  induction cs with
  | nil => rfl
  | cons c cs ih => simp only [List.map_cons, Goal.sizeAll, Goal.size, Condition.sizeAll, ih]

theorem size_le_sizeAll {c : Condition} {cs : List Condition} (h : c ∈ cs) :
    c.size ≤ Condition.sizeAll cs := by
  induction cs with
  | nil => exact absurd h (by simp)
  | cons k cs ih =>
    rw [Condition.sizeAll]
    rcases List.mem_cons.mp h with rfl | h
    · omega
    · have := ih h
      omega

/-- One branch takes the place of the first. -/
theorem row_shrinks {gs : List Goal} {b : Bindings} {cs : List Choice} {n : Nat}
    (h : Goal.sizeAll gs < n) : Row.Shrinks (row ⟨gs, b, cs⟩).sizes (n :: sizesOf cs) := by
  show Row.Shrinks ([Goal.sizeAll gs] ++ sizesOf cs) (n :: ([] ++ sizesOf cs))
  exact .move [] (by simpa using h)

/-- Several branches take the place of the first. -/
theorem branch_shrinks {m m' : Machine} {gs : List Goal} {n : Nat} (hlt : ∀ g ∈ gs, g.size < n)
    (h : m.branch gs = some m') :
    Row.Shrinks m'.row.sizes ((n + Goal.sizeAll m.goals) :: sizesOf m.choices) := by
  rw [branch_row h]
  refine .move [] fun k hk => ?_
  obtain ⟨g, hg, rfl⟩ := List.mem_map.mp hk
  exact Nat.add_lt_add_right (hlt g hg) _

/-- Working on a goal leaves smaller branches in its place. -/
theorem work_shrinks {s : Scene} {possible : Bool} {m m' : Machine} {g : Goal}
    (h : m.work s possible g = some m') :
    Row.Shrinks m'.row.sizes ((g.size + Goal.sizeAll m.goals) :: sizesOf m.choices) := by
  cases g with
  | fits id p =>
    obtain ⟨d, v, c⟩ := p
    obtain ⟨b, _, rfl⟩ := Option.map_eq_some_iff.mp h
    refine row_shrinks ?_
    cases c with
    | none => simp [Goal.size, NodePattern.size]
    | some c => simp [Goal.size, NodePattern.size, Goal.sizeAll]
  | meets id c =>
    cases c with
    | all cs =>
      obtain rfl := Option.some.inj h
      refine row_shrinks ?_
      simp only [sizeAll_append, sizeAll_meets, Goal.size, Condition.size]
      omega
    | any cs =>
      refine branch_shrinks (fun g hg => ?_) h
      obtain ⟨c, hc, rfl⟩ := List.mem_map.mp hg
      exact Nat.lt_succ_of_le (size_le_sizeAll hc)
    | not c =>
      rw [work] at h
      split at h
      · exact absurd h (by simp)
      · obtain rfl := Option.some.inj h
        refine row_shrinks ?_
        simp [Goal.size, Condition.size]
    | optional c =>
      obtain rfl := Option.some.inj h
      split
      · refine row_shrinks ?_
        simp [Goal.size, Condition.size, Goal.sizeAll]
      · refine row_shrinks ?_
        simp [Goal.size, Condition.size]
    | related r p =>
      refine branch_shrinks (fun g hg => ?_) h
      obtain ⟨x, _, rfl⟩ := List.mem_map.mp hg
      exact Nat.lt_succ_self _

/-- **Every step shrinks the row of branches.** -/
theorem step_shrinks {s : Scene} {possible : Bool} {m m' : Machine} {g : Goal}
    (h : m.step s possible g = some m') :
    Row.Shrinks m'.row.sizes ((g.size + Goal.sizeAll m.goals) :: sizesOf m.choices) := by
  rcases Option.or_eq_some_iff.mp h with h | ⟨_, h⟩
  · exact work_shrinks h
  · rw [backtrack_row h]
    exact Row.shrinks_tail _ _

/-- A trial has to establish less than the goal that asks for it. -/
theorem trial_size {g t : Goal} (h : g.trial? = some t) : t.size < g.size := by
  unfold Goal.trial? at h
  split at h
  · obtain rfl := Option.some.inj h
    exact Nat.lt_succ_self _
  · obtain rfl := Option.some.inj h
    exact Nat.lt_succ_self _
  · exact absurd h (by simp)

theorem trial_shrinks {g t : Goal} (h : g.trial? = some t) (n : Nat) (rest : List Nat) :
    Row.Shrinks [Goal.sizeAll [t]] ((g.size + n) :: rest) := by
  have hlt := trial_size h
  exact Row.shrinks_singleton rest (by simp only [Goal.sizeAll]; omega)

/-! ## Running a machine -/

/-- Works on goals until none is left, or until no choice is. -/
def run (s : Scene) : Machine → Option Machine
  | ⟨[], b, cs⟩ => some ⟨[], b, cs⟩
  | ⟨g :: gs, b, cs⟩ =>
    let possible := match _ht : g.trial? with
      | none => false
      | some t => (run s ⟨[t], b, []⟩).isSome
    match _hs : step s possible ⟨gs, b, cs⟩ g with
    | none => none
    | some m => run s m
termination_by m => m.row
decreasing_by
  · exact .single (trial_shrinks _ht _ _)
  · exact .single (step_shrinks _hs)

/-- Whether what a goal needs tried apart has a solution; without need of a trial, `false`. -/
def isPossible (s : Scene) (b : Bindings) (g : Goal) : Bool :=
  match g.trial? with
  | none => false
  | some t => (run s ⟨[t], b, []⟩).isSome

theorem run_nil (s : Scene) (b : Bindings) (cs : List Choice) :
    run s ⟨[], b, cs⟩ = some ⟨[], b, cs⟩ := by
  rw [run]

theorem run_cons (s : Scene) (g : Goal) (gs : List Goal) (b : Bindings) (cs : List Choice) :
    run s ⟨g :: gs, b, cs⟩ = (step s (isPossible s b g) ⟨gs, b, cs⟩ g).bind (run s) := by
  have hp : (match _ht : g.trial? with
      | none => false
      | some t => (run s ⟨[t], b, []⟩).isSome) = isPossible s b g := by
    unfold isPossible
    split <;> simp_all
  rw [run, hp]
  split
  · rename_i h
    rw [h]
    rfl
  · rename_i m h
    rw [h]
    rfl

/-- Induction along the steps of a run: what holds of a machine without goals, and of a machine if
it holds of the machine after its next step and of what it tries apart, holds of every machine. -/
theorem run_induction (s : Scene) {motive : Machine → Prop}
    (done : ∀ b cs, motive ⟨[], b, cs⟩)
    (work : ∀ g gs b cs, (∀ t, g.trial? = some t → motive ⟨[t], b, []⟩) →
      (∀ m, step s (isPossible s b g) ⟨gs, b, cs⟩ g = some m → motive m) →
      motive ⟨g :: gs, b, cs⟩) (m : Machine) : motive m := by
  refine (InvImage.wf row WellFoundedRelation.wf).induction m fun m ih => ?_
  obtain ⟨gs, b, cs⟩ := m
  cases gs with
  | nil => exact done b cs
  | cons g gs =>
    refine work g gs b cs (fun t ht => ih _ ?_) (fun m hm => ih _ ?_)
    · exact Relation.TransGen.single (trial_shrinks ht _ _)
    · exact Relation.TransGen.single (step_shrinks hm)

/-- The next solution, if there is one, and the machine that finds those after it. -/
def next (s : Scene) (m : Machine) : Option Bindings × Machine :=
  let resumed := if m.goals.isEmpty then backtrack m.choices else some m
  match resumed.bind (run s) with
  | some m => (some m.bindings, m)
  | none => (none, { m with goals := [], choices := [] })

/-- A run that does not end at once goes through smaller rows. -/
theorem run_row {s : Scene} {m m' : Machine} (h : run s m = some m') :
    m'.goals = [] ∧ (m' = m ∨ Relation.TransGen Row.Shrinks m'.row.sizes m.row.sizes) := by
  induction m using run_induction s with
  | done b cs =>
    rw [run_nil] at h
    obtain rfl := Option.some.inj h
    exact ⟨rfl, .inl rfl⟩
  | work g gs b cs _ ih =>
    rw [run_cons] at h
    obtain ⟨m, hm, h⟩ := Option.bind_eq_some_iff.mp h
    have hstep := step_shrinks hm
    obtain ⟨hgoals, rfl | hrow⟩ := ih m hm h
    · exact ⟨hgoals, .inr (.single hstep)⟩
    · exact ⟨hgoals, .inr (.tail hrow hstep)⟩

/-- A machine goes on with its goals or, without any, with its latest choice, and answers with the
bindings that it comes to. -/
theorem next_eq_some {s : Scene} {m m' : Machine} {b : Bindings} (h : m.next s = (some b, m')) :
    ∃ resumed, (if m.goals.isEmpty then backtrack m.choices else some m) = some resumed ∧
      run s resumed = some m' ∧ m'.bindings = b := by
  unfold next at h
  dsimp only at h
  split at h
  · rename_i found hfound
    obtain ⟨hb, rfl⟩ := Prod.mk.inj h
    obtain ⟨resumed, hresumed, hrun⟩ := Option.bind_eq_some_iff.mp hfound
    exact ⟨resumed, hresumed, hrun, Option.some.inj hb⟩
  · exact absurd (Prod.mk.inj h).1 (by simp)

/-- Every solution leaves a smaller row behind. -/
theorem next_row {s : Scene} {m m' : Machine} {b : Bindings} (h : m.next s = (some b, m')) :
    Relation.TransGen Row.Shrinks m'.row.sizes m.row.sizes := by
  obtain ⟨resumed, hresumed, hrun, -⟩ := next_eq_some h
  obtain ⟨hgoals, hrow⟩ := run_row hrun
  split at hresumed
  · rename_i hempty
    have hdrop : Row.Shrinks resumed.row.sizes m.row.sizes := by
      rw [backtrack_row hresumed]
      exact Row.shrinks_tail _ _
    rcases hrow with rfl | hrow
    · exact .single hdrop
    · exact .tail hrow hdrop
  · rename_i hne
    obtain rfl := Option.some.inj hresumed
    rcases hrow with rfl | hrow
    · exact absurd (by rw [hgoals]; rfl) hne
    · exact hrow

/-- The next solution that has not been seen, and the machine that finds those after it. -/
def nextUnseen (s : Scene) (seen : List Bindings) (m : Machine) : Option (Bindings × Machine) :=
  match _h : m.next s with
  | (none, _) => none
  | (some b, m') => if seen.contains b then nextUnseen s seen m' else some (b, m')
termination_by m.row
decreasing_by exact next_row _h

section unseen

variable {s : Scene} {seen : List Bindings} {m m' : Machine} {b : Bindings} {P : Machine → Prop}

/-- An unseen solution is what a machine comes to that is left behind by calls which came to what
had been seen. -/
theorem nextUnseen_eq_some
    (hcall : ∀ {x y : Machine} {c : Bindings}, P x → x.next s = (some c, y) → P y) (hm : P m)
    (h : m.nextUnseen s seen = some (b, m')) :
    ∃ last, P last ∧ last.next s = (some b, m') ∧ b ∉ seen := by
  induction m using nextUnseen.induct s seen with
  | case1 m m' hnext =>
    rw [nextUnseen, hnext] at h
    exact absurd h (by simp)
  | case2 m c m₁ hnext hseen ih =>
    rw [nextUnseen, hnext] at h
    dsimp only at h
    rw [if_pos hseen] at h
    exact ih (hcall hm hnext) h
  | case3 m c m₁ hnext hseen =>
    rw [nextUnseen, hnext] at h
    dsimp only at h
    rw [if_neg hseen] at h
    obtain ⟨rfl, rfl⟩ := Prod.mk.inj (Option.some.inj h)
    exact ⟨m, hm, hnext, fun hb => hseen (List.contains_iff_mem.mpr hb)⟩

/-- What a machine comes to had not been seen. -/
theorem nextUnseen_not_mem (h : m.nextUnseen s seen = some (b, m')) : b ∉ seen := by
  obtain ⟨_, -, -, hb⟩ := nextUnseen_eq_some (P := fun _ => True) (fun _ _ => trivial) trivial h
  exact hb

theorem nextUnseen_row (h : m.nextUnseen s seen = some (b, m')) :
    Relation.TransGen Row.Shrinks m'.row.sizes m.row.sizes := by
  obtain ⟨last, hlast, hnext, -⟩ := nextUnseen_eq_some
    (P := fun x => x = m ∨ Relation.TransGen Row.Shrinks x.row.sizes m.row.sizes)
    (fun hx hcall => .inr <| by
      rcases hx with rfl | hx
      · exact next_row hcall
      · exact .trans (next_row hcall) hx) (.inl rfl) h
  rcases hlast with rfl | hlast
  · exact next_row hnext
  · exact .trans (next_row hnext) hlast

end unseen

/-! ## What every step keeps -/

/-- A property that a machine keeps when it works on a goal and when it goes back. -/
structure IsInvariant (s : Scene) (P : Machine → Prop) : Prop where
  step {g : Goal} {gs : List Goal} {b : Bindings} {cs : List Choice} {m : Machine} :
    P ⟨g :: gs, b, cs⟩ → step s (isPossible s b g) ⟨gs, b, cs⟩ g = some m → P m
  back {m m' : Machine} : P m → backtrack m.choices = some m' → P m'

namespace IsInvariant

variable {s : Scene} {m m' : Machine} {b : Bindings} {P : Machine → Prop}

theorem run (hP : IsInvariant s P) (h : P m) (hm : m.run s = some m') : P m' := by
  induction m using run_induction s with
  | done b cs =>
    rw [run_nil] at hm
    exact Option.some.inj hm ▸ h
  | work g gs b cs _ ih =>
    rw [run_cons] at hm
    obtain ⟨m, hstep, hm⟩ := Option.bind_eq_some_iff.mp hm
    exact ih m hstep (hP.step h hstep) hm

/-- **What steps keep holds of what a call leaves behind**, a machine without goals that has made
the bindings of the solution. -/
theorem next (hP : IsInvariant s P) (h : P m) (hm : m.next s = (some b, m')) :
    P m' ∧ m'.goals = [] ∧ m'.bindings = b := by
  obtain ⟨resumed, hresumed, hrun, hb⟩ := next_eq_some hm
  have hresumed : P resumed := by
    split at hresumed
    · exact hP.back h hresumed
    · exact Option.some.inj hresumed ▸ h
  exact ⟨hP.run hresumed hrun, (run_row hrun).1, hb⟩

theorem nextUnseen {seen : List Bindings} (hP : IsInvariant s P) (h : P m)
    (hm : m.nextUnseen s seen = some (b, m')) : P m' ∧ m'.goals = [] ∧ m'.bindings = b := by
  obtain ⟨last, hlast, hnext, -⟩ := nextUnseen_eq_some (fun hx hcall => (hP.next hx hcall).1) h hm
  exact hP.next hlast hnext

end IsInvariant

end Machine

end Constituency
