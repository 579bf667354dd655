import Constituency.Search.Machine

/-!
# A machine answers with the solutions, in order

`NodePattern.solutions` says what a pattern means without any machine. Here a
machine gets a meaning of the same kind: its goals denote the ways in which all
of them can be reached one after the other, and a choice denotes those of its
alternatives, each with the goals and the bindings that were saved for it. The
meaning of the machine is the one followed by the others.

The invariant is that no step changes this list. A goal is replaced by goals
that denote the same; an alternative left behind stands in the list where the
disjunction or the relation put it; going back is only possible when what is
given up denotes nothing. A machine without goals denotes its bindings and then
what its choices denote, so asking for a solution takes the first one off.
-/

namespace Constituency

/-- The bindings under which a goal is reached, given those made before. -/
def Goal.solutions (s : Scene) : Goal → Bindings → List Bindings
  | fits id p, b => p.solutions s id b
  | meets id c, b => c.solutions s id b

/-- The bindings under which goals are reached one after the other. -/
def Goal.solutionsAll (s : Scene) : List Goal → Bindings → List Bindings
  | [], b => [b]
  | g :: gs, b => (g.solutions s b).flatMap (solutionsAll s gs)

/-- The bindings that the alternatives of a choice lead to. -/
def Choice.solutions (s : Scene) (c : Choice) : List Bindings :=
  c.alternatives.flatMap fun g => Goal.solutionsAll s (g :: c.goals) c.bindings

namespace Machine

variable {s : Scene}

/-- The bindings that several choices lead to, the latest choice first. -/
def pending (s : Scene) (cs : List Choice) : List Bindings := cs.flatMap (Choice.solutions s)

/-- The bindings that a machine leads to. -/
def solutions (s : Scene) (m : Machine) : List Bindings :=
  Goal.solutionsAll s m.goals m.bindings ++ pending s m.choices

/-! ## What goals denote -/

theorem solutionsAll_append (gs hs : List Goal) (b : Bindings) :
    Goal.solutionsAll s (gs ++ hs) b =
      (Goal.solutionsAll s gs b).flatMap (Goal.solutionsAll s hs) := by
  induction gs generalizing b with
  | nil => simp [Goal.solutionsAll]
  | cons g gs ih =>
    rw [List.cons_append, Goal.solutionsAll, Goal.solutionsAll, List.flatMap_assoc]
    exact congrArg (List.flatMap · _) (funext ih)

/-- The goals that a conjunction becomes denote what the conjunction does. -/
theorem solutionsAll_meets (id : NodeId) (cs : List Condition) (b : Bindings) :
    Goal.solutionsAll s (cs.map (.meets id)) b = Condition.solutionsAll s cs id b := by
  induction cs generalizing b with
  | nil => rw [List.map_nil, Goal.solutionsAll, Condition.solutionsAll]
  | cons c cs ih =>
    rw [List.map_cons, Goal.solutionsAll, Condition.solutionsAll]
    exact congrArg (List.flatMap · _) (funext ih)

theorem solutionsAny_eq_flatMap (id : NodeId) (cs : List Condition) (b : Bindings) :
    Condition.solutionsAny s cs id b = cs.flatMap fun c => c.solutions s id b := by
  induction cs with
  | nil => rw [Condition.solutionsAny, List.flatMap_nil]
  | cons c cs ih => rw [Condition.solutionsAny, List.flatMap_cons, ih]

/-! ## What a step leaves unchanged -/

theorem backtrack_solutions {cs : List Choice} {m : Machine} (h : backtrack cs = some m) :
    m.solutions s = pending s cs :=
  backtrack_flatMap (Goal.solutionsAll s) h

theorem pending_of_backtrack_none {cs : List Choice} (h : backtrack cs = none) :
    pending s cs = [] := by
  induction cs using backtrack.induct with
  | case1 => rfl
  | case2 goals b cs ih =>
    rw [backtrack] at h
    exact ih h
  | case3 goals b g cs => exact absurd h (by simp [backtrack])
  | case4 goals b g gs cs hgs =>
    rw [backtrack] at h
    · exact absurd h (by simp)
    · exact hgs

theorem branch_solutions {m m' : Machine} {gs : List Goal} (h : m.branch gs = some m') :
    m'.solutions s =
      (gs.flatMap fun g => Goal.solutionsAll s (g :: m.goals) m.bindings) ++
        pending s m.choices := by
  unfold branch at h
  split at h
  · exact absurd h (by simp)
  · obtain rfl := Option.some.inj h
    simp [solutions]
  · obtain rfl := Option.some.inj h
    simp [solutions, pending, Choice.solutions]

theorem nil_of_branch_none {m : Machine} {gs : List Goal} (h : m.branch gs = none) : gs = [] := by
  unfold branch at h
  split at h
  · rfl
  · exact absurd h (by simp)
  · exact absurd h (by simp)

/-- Alternatives that together denote what a goal does can take its place as a choice. -/
theorem branch_solutions_of_goal {m m' : Machine} {gs : List Goal} {g : Goal}
    (hg : g.solutions s m.bindings = gs.flatMap fun k => k.solutions s m.bindings)
    (h : m.branch gs = some m') :
    m'.solutions s = Goal.solutionsAll s (g :: m.goals) m.bindings ++ pending s m.choices := by
  rw [branch_solutions h, Goal.solutionsAll, hg, List.flatMap_assoc]
  rfl

theorem goal_solutions_of_branch_none {m : Machine} {gs : List Goal} {g : Goal}
    (hg : g.solutions s m.bindings = gs.flatMap fun k => k.solutions s m.bindings)
    (h : m.branch gs = none) : g.solutions s m.bindings = [] := by
  rw [hg, nil_of_branch_none h, List.flatMap_nil]

/-- A disjunction denotes what its parts do, in order. -/
theorem solutions_any (id : NodeId) (cs : List Condition) (b : Bindings) :
    (Goal.meets id (.any cs)).solutions s b =
      (cs.map (Goal.meets id)).flatMap fun k => k.solutions s b := by
  rw [List.flatMap_map, Goal.solutions, Condition.solutions, solutionsAny_eq_flatMap]
  rfl

/-- A relation denotes what its target does at the candidates, in order. -/
theorem solutions_related (id : NodeId) (r : Relation) (p : NodePattern) (b : Bindings) :
    (Goal.meets id (.related r p)).solutions s b =
      ((r.candidates s b id).map (Goal.fits · p)).flatMap fun k => k.solutions s b := by
  rw [List.flatMap_map, Goal.solutions, Condition.solutions]
  rfl

/-- Working on a goal keeps what the machine denotes, if the trial told the truth. -/
theorem work_solutions {m m' : Machine} {g : Goal} {possible : Bool}
    (htrial : ∀ t, g.trial? = some t → possible = !(t.solutions s m.bindings).isEmpty)
    (h : m.work s possible g = some m') :
    m'.solutions s = Goal.solutionsAll s (g :: m.goals) m.bindings ++ pending s m.choices := by
  cases g with
  | fits id p =>
    obtain ⟨d, v, c⟩ := p
    obtain ⟨b, hb, rfl⟩ := Option.map_eq_some_iff.mp h
    rw [solutions, Goal.solutionsAll, Goal.solutions]
    cases c with
    | none =>
      rw [NodePattern.solutions, hb, Option.toList_some, List.flatMap_singleton]
      rfl
    | some c =>
      rw [NodePattern.solutions, hb]
      rfl
  | meets id c =>
    cases c with
    | all cs =>
      obtain rfl := Option.some.inj h
      rw [solutions, solutionsAll_append, solutionsAll_meets, Goal.solutionsAll, Goal.solutions,
        Condition.solutions]
    | any cs => exact branch_solutions_of_goal (solutions_any id cs m.bindings) h
    | not c =>
      -- here and for `optional`, the trial decides whether the bindings go on as they are
      have hp := htrial _ rfl
      rw [Goal.solutions] at hp
      rw [work] at h
      split at h
      · exact absurd h (by simp)
      · rename_i hfalse
        obtain rfl := Option.some.inj h
        have hempty : (c.solutions s id m.bindings).isEmpty = true := by
          rw [hp] at hfalse
          simpa using hfalse
        rw [Goal.solutionsAll, Goal.solutions, Condition.solutions, if_pos hempty,
          List.flatMap_singleton, solutions]
    | optional c =>
      have hp := htrial _ rfl
      rw [Goal.solutions] at hp
      obtain rfl := Option.some.inj h
      rw [Goal.solutionsAll, Goal.solutions, Condition.solutions]
      cases hc : c.solutions s id m.bindings with
      | nil =>
        rw [hc] at hp
        rw [hp, if_neg (by simp), List.flatMap_singleton, solutions]
      | cons b bs =>
        rw [hc] at hp
        rw [hp, if_pos (by simp), solutions, Goal.solutionsAll, Goal.solutions, hc]
    | related r p => exact branch_solutions_of_goal (solutions_related id r p m.bindings) h

/-- A goal fails only if it denotes nothing. -/
theorem solutions_of_work_none {m : Machine} {g : Goal} {possible : Bool}
    (htrial : ∀ t, g.trial? = some t → possible = !(t.solutions s m.bindings).isEmpty)
    (h : m.work s possible g = none) : g.solutions s m.bindings = [] := by
  cases g with
  | fits id p =>
    obtain ⟨d, v, c⟩ := p
    have hb := Option.map_eq_none_iff.mp h
    cases c with
    | none => rw [Goal.solutions, NodePattern.solutions, hb, Option.toList_none]
    | some c => rw [Goal.solutions, NodePattern.solutions, hb]
  | meets id c =>
    cases c with
    | all cs => exact absurd h (by simp [work])
    | any cs => exact goal_solutions_of_branch_none (solutions_any id cs m.bindings) h
    | not c =>
      have hp := htrial _ rfl
      rw [Goal.solutions] at hp
      rw [work] at h
      split at h
      · rename_i htrue
        rw [hp] at htrue
        rw [Goal.solutions, Condition.solutions, if_neg (by simpa using htrue)]
      · exact absurd h (by simp)
    | optional c => exact absurd h (by simp [work])
    | related r p => exact goal_solutions_of_branch_none (solutions_related id r p m.bindings) h

/-- **No step changes what a machine denotes.** -/
theorem step_solutions {gs : List Goal} {b : Bindings} {cs : List Choice} {m' : Machine} {g : Goal}
    {possible : Bool}
    (htrial : ∀ t, g.trial? = some t → possible = !(t.solutions s b).isEmpty)
    (h : step s possible ⟨gs, b, cs⟩ g = some m') :
    m'.solutions s = solutions s ⟨g :: gs, b, cs⟩ := by
  rcases Option.or_eq_some_iff.mp h with h | ⟨hnone, h⟩
  · exact work_solutions htrial h
  · -- what is given up denotes nothing, so only the choices are left
    have hg : g.solutions s b = [] := solutions_of_work_none htrial hnone
    rw [backtrack_solutions h, solutions, Goal.solutionsAll, hg, List.flatMap_nil, List.nil_append]

/-- A machine that can do no step denotes nothing. -/
theorem solutions_of_step_none {gs : List Goal} {b : Bindings} {cs : List Choice} {g : Goal}
    {possible : Bool}
    (htrial : ∀ t, g.trial? = some t → possible = !(t.solutions s b).isEmpty)
    (h : step s possible ⟨gs, b, cs⟩ g = none) : solutions s ⟨g :: gs, b, cs⟩ = [] := by
  obtain ⟨hnone, h⟩ := Option.or_eq_none_iff.mp h
  have hg : g.solutions s b = [] := solutions_of_work_none htrial hnone
  rw [solutions, Goal.solutionsAll, hg, List.flatMap_nil, pending_of_backtrack_none h]
  rfl

/-! ## What a run comes to -/

/-- What a run of a machine has to come to: it ends without goals and denoting what it began with,
or else there was nothing. -/
def RunsTrue (s : Scene) (m : Machine) : Prop :=
  (run s m = none → m.solutions s = []) ∧
    ∀ m', run s m = some m' → m'.goals = [] ∧ m'.solutions s = m.solutions s

/-- A trial is a run of its own, and tells the truth if that run does. -/
theorem RunsTrue.isPossible_eq {g t : Goal} {b : Bindings} (ht : g.trial? = some t)
    (htrue : RunsTrue s ⟨[t], b, []⟩) : isPossible s b g = !(t.solutions s b).isEmpty := by
  have hsol : solutions s ⟨[t], b, []⟩ = t.solutions s b := by
    simp [solutions, pending, Goal.solutionsAll]
  unfold isPossible
  rw [ht]
  dsimp only
  cases hrun : run s ⟨[t], b, []⟩ with
  | none =>
    rw [← hsol, htrue.1 hrun]
    rfl
  | some m =>
    obtain ⟨hgoals, hm⟩ := htrue.2 m hrun
    have hne : t.solutions s b ≠ [] := by
      rw [← hsol, ← hm, solutions, hgoals]
      simp [Goal.solutionsAll]
    simp [hne]

/-- **Every run comes to what it has to.** -/
theorem run_solutions (m : Machine) : RunsTrue s m := by
  induction m using run_induction s with
  | done b cs =>
    unfold RunsTrue
    rw [run_nil]
    refine ⟨fun h => absurd h (by simp), fun m' h => ?_⟩
    obtain rfl := Option.some.inj h
    exact ⟨rfl, rfl⟩
  | work g gs b cs iht ihm =>
    have htrial : ∀ t, g.trial? = some t → isPossible s b g = !(t.solutions s b).isEmpty :=
      fun t ht => (iht t ht).isPossible_eq ht
    unfold RunsTrue
    rw [run_cons]
    cases hstep : step s (isPossible s b g) ⟨gs, b, cs⟩ g with
    | none => exact ⟨fun _ => solutions_of_step_none htrial hstep, fun m' h => absurd h (by simp)⟩
    | some m =>
      have hsol := step_solutions htrial hstep
      rw [← hsol]
      exact ihm m hstep

/-- A trial finds out whether there are solutions. -/
theorem isPossible_eq {g t : Goal} (ht : g.trial? = some t) (b : Bindings) :
    isPossible s b g = !(t.solutions s b).isEmpty :=
  (run_solutions _).isPossible_eq ht

/-- The bindings that a machine has still to answer with. One without goals has answered with its
own already. -/
def remaining (s : Scene) (m : Machine) : List Bindings :=
  if m.goals.isEmpty then pending s m.choices else m.solutions s

/-- **Asking for a solution takes the first one off what remains.** -/
theorem next_remaining (m : Machine) :
    (m.next s).1 = (m.remaining s).head? ∧ (m.next s).2.remaining s = (m.remaining s).tail := by
  -- without goals, a machine goes back to its latest choice before it runs
  have hresumed : ∀ resumed,
      (if m.goals.isEmpty then backtrack m.choices else some m) = some resumed →
      resumed.solutions s = m.remaining s := by
    intro resumed h
    unfold remaining
    split at h
    · rename_i hempty
      rw [if_pos hempty, backtrack_solutions h]
    · rename_i hne
      obtain rfl := Option.some.inj h
      rw [if_neg hne]
  have hnone : (if m.goals.isEmpty then backtrack m.choices else some m) = none →
      m.remaining s = [] := by
    intro h
    unfold remaining
    split at h
    · rename_i hempty
      rw [if_pos hempty, pending_of_backtrack_none h]
    · exact absurd h (by simp)
  unfold next
  dsimp only
  cases hr : (if m.goals.isEmpty then backtrack m.choices else some m) with
  | none =>
    rw [hnone hr]
    exact ⟨rfl, rfl⟩
  | some resumed =>
    rw [← hresumed resumed hr, Option.bind_some]
    cases hrun : run s resumed with
    | none =>
      rw [(run_solutions resumed).1 hrun]
      exact ⟨rfl, rfl⟩
    | some found =>
      obtain ⟨hgoals, hsol⟩ := (run_solutions resumed).2 found hrun
      rw [← hsol, solutions, hgoals, remaining, hgoals]
      exact ⟨rfl, rfl⟩

theorem remaining_of_next {m m' : Machine} {b : Bindings} (h : m.next s = (some b, m')) :
    m.remaining s = b :: m'.remaining s := by
  obtain ⟨hhead, htail⟩ := next_remaining (s := s) m
  rw [h] at hhead htail
  obtain ⟨rest, hrest⟩ := List.head?_eq_some_iff.mp hhead.symm
  rw [htail, hrest, List.tail_cons]

theorem remaining_of_next_none {m m' : Machine} (h : m.next s = (none, m')) :
    m.remaining s = [] := by
  have hhead := (next_remaining (s := s) m).1
  rw [h] at hhead
  exact List.head?_eq_none_iff.mp hhead.symm

/-- A new machine has all solutions of its pattern before it. -/
theorem remaining_start (p : NodePattern) (id : NodeId) (count : Nat) :
    (start p id count).remaining s = p.solutions s id (.unbound count) := by
  simp [remaining, start, solutions, pending, Goal.solutionsAll, Goal.solutions]

/-- The answers to the first `n` requests for a solution. -/
def answers (s : Scene) : Nat → Machine → List (Option Bindings)
  | 0, _ => []
  | n + 1, m => (m.next s).1 :: answers s n (m.next s).2

theorem answers_eq (n : Nat) (m : Machine) :
    m.answers s n = (List.range n).map fun k => (m.remaining s)[k]? := by
  induction n generalizing m with
  | zero => rfl
  | succ n ih =>
    obtain ⟨hhead, htail⟩ := next_remaining (s := s) m
    rw [answers, ih, hhead, htail, List.range_succ_eq_map, List.map_cons, List.map_map,
      List.head?_eq_getElem?]
    congr 1
    refine List.map_congr_left ?_
    intro k _
    rw [List.getElem?_tail]
    rfl

/-- **A machine answers with the solutions of its pattern.** The answer to request `k` is the
solution at position `k`: every solution is found, in the order and as often as the meaning of the
pattern lists it. Past the last solution every answer is `none`. -/
theorem answers_start (s : Scene) (p : NodePattern) (id : NodeId) (count n : Nat) :
    (start p id count).answers s n =
      (List.range n).map fun k => (p.solutions s id (.unbound count))[k]? := by
  rw [answers_eq, remaining_start]

end Machine

end Constituency
