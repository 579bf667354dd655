import Constituency.Proofs.Pattern.Captures
import Constituency.Proofs.Search.Matches

/-!
# Conjunctions that are joined

A condition that is added to a pattern is joined with the one that is there. Conjunctions are not
nested in this: the parts of either side become parts of the whole. Nothing is lost or moved by it,
for a conjunction passes every solution of its parts on to the part behind them, whether the parts
are put together in twos or in one row (`Condition.solutions_merge`). A machine is known by its
remaining solutions, and cannot tell the two ways apart (`Machine.answers_congr`).
-/

namespace Constituency

variable {s : Scene} {id : NodeId} {b : Bindings}

namespace Condition

/-- Two rows of conditions, one behind the other, are the one row. -/
theorem solutionsAll_append (s : Scene) (cs ds : List Condition) (id : NodeId) (b : Bindings) :
    solutionsAll s (cs ++ ds) id b =
      (solutionsAll s cs id b).flatMap (solutionsAll s ds id) := by
  induction cs generalizing b with
  | nil => rw [List.nil_append, solutionsAll, List.flatMap_singleton]
  | cons c cs ih =>
    rw [List.cons_append, solutionsAll, solutionsAll, List.flatMap_assoc]
    exact List.flatMap_congr fun b' _ => ih b'

theorem solutionsAll_singleton (s : Scene) (c : Condition) (id : NodeId) (b : Bindings) :
    solutionsAll s [c] id b = c.solutions s id b := by
  have hlast : solutionsAll s [] id = fun b => [b] := by
    funext b
    rw [solutionsAll]
  rw [solutionsAll, hlast, List.flatMap_singleton']

/-- A condition denotes what the conjunction of its parts does. -/
theorem solutionsAll_conjuncts (s : Scene) (c : Condition) (id : NodeId) (b : Bindings) :
    solutionsAll s c.conjuncts id b = c.solutions s id b := by
  cases c with
  | all cs => rw [conjuncts, solutions]
  | _ => exact solutionsAll_singleton s _ id b

/-- **Joined conditions pass every solution of the first on to the second.** -/
theorem solutions_merge (s : Scene) (c d : Condition) (id : NodeId) (b : Bindings) :
    (c.merge d).solutions s id b = (c.solutions s id b).flatMap (d.solutions s id) := by
  rw [merge_eq, solutions, solutionsAll_append, solutionsAll_conjuncts]
  exact List.flatMap_congr fun b' _ => solutionsAll_conjuncts s d id b'

/-- So does the conjunction of the two. -/
theorem solutions_both (s : Scene) (c d : Condition) (id : NodeId) (b : Bindings) :
    (Condition.all [c, d]).solutions s id b =
      (c.solutions s id b).flatMap (d.solutions s id) := by
  rw [solutions, solutionsAll]
  exact List.flatMap_congr fun b' _ => solutionsAll_singleton s d id b'

end Condition

namespace NodePattern

/-- What is required in addition is required of every solution that there is without it. -/
theorem solutions_and (s : Scene) (p : NodePattern) (c : Condition) (id : NodeId) (b : Bindings) :
    (p.and c).solutions s id b = (p.solutions s id b).flatMap (c.solutions s id) := by
  obtain ⟨d, v, _ | k⟩ := p
  · rw [NodePattern.and, solutions, solutions]
    cases s.enter d v id b with
    | none => rfl
    | some b => rw [Option.toList_some, List.flatMap_singleton]
  · rw [NodePattern.and, solutions, solutions]
    cases s.enter d v id b with
    | none => rfl
    | some b => exact Condition.solutions_merge s k c id b

theorem description_and (p : NodePattern) (c : Condition) :
    (p.and c).description = p.description := by
  obtain ⟨d, v, _ | k⟩ := p <;> rfl

end NodePattern

/-! ## What machines and searches tell apart -/

/-- **A machine does not tell goals apart that denote the same.** -/
theorem Machine.answers_congr {g g' : Goal} {goals : List Goal} {choices : List Choice}
    (h : g'.solutions s b = g.solutions s b) (n : Nat) :
    answers s n ⟨g' :: goals, b, choices⟩ = answers s n ⟨g :: goals, b, choices⟩ := by
  have hall : Goal.solutionsAll s (g' :: goals) b = Goal.solutionsAll s (g :: goals) b := by
    rw [Goal.solutionsAll, Goal.solutionsAll, h]
  have hremaining : remaining s ⟨g' :: goals, b, choices⟩ = remaining s ⟨g :: goals, b, choices⟩ :=
    congrArg (· ++ pending s choices) hall
  rw [answers_eq, answers_eq, hremaining]

namespace Pattern

/-- Two patterns that bind the same names and find the same matches, in the same order. -/
structure SameMatches (p q : Pattern) : Prop where
  names : q.names = p.names
  visible : q.visible = p.visible
  /-- At every node of every scene a machine gives the same answers for both. -/
  answers : ∀ (s : Scene) (id : NodeId) (n : Nat),
    (Machine.start q.root id q.names.length).answers s n =
      (Machine.start p.root id p.names.length).answers s n
  search : ∀ (mode : Mode) (t : Tree), q.search mode t = p.search mode t

/-- Patterns that denote the same, of nodes that must look alike, find the same matches. -/
theorem sameMatches_of_solutions {p q : Pattern} (hnames : q.names = p.names)
    (hvisible : q.visible = p.visible) (hmarks : q.marks = p.marks)
    (hdescription : q.root.description = p.root.description)
    (h : ∀ s id b, q.root.solutions s id b = p.root.solutions s id b) : SameMatches p q where
  names := hnames
  visible := hvisible
  answers s id n := by
    have hgoal : (Goal.fits id q.root).solutions s (.unbound p.names.length) =
        (Goal.fits id p.root).solutions s (.unbound p.names.length) := by
      rw [Goal.solutions, Goal.solutions, h]
    rw [hnames]
    exact Machine.answers_congr hgoal n
  search mode t := by
    have hroots : (Enumeration.start q mode t).roots = (Enumeration.start p mode t).roots := by
      show Enumeration.rootsOf q (Index.build t) = Enumeration.rootsOf p (Index.build t)
      rw [Enumeration.rootsOf, Enumeration.rootsOf, hdescription]
    have hmatches : (Enumeration.start q mode t).matchesAt t =
        (Enumeration.start p mode t).matchesAt t := by
      funext root
      unfold Enumeration.matchesAt Enumeration.scene Enumeration.found Enumeration.start
      simp only [hmarks, hnames, h]
    rw [search, search, Enumeration.remaining_eq t _ (Enumeration.isStale_start q mode t),
      Enumeration.remaining_eq t _ (Enumeration.isStale_start p mode t)]
    -- a search that has just been started has all its matches at roots still to be tried
    show [] ++ (Enumeration.start q mode t).roots.flatMap _ =
      [] ++ (Enumeration.start p mode t).roots.flatMap _
    rw [hroots, hmatches]

end Pattern

end Constituency
