import Constituency.Proofs.Pattern.Captures
import Constituency.Proofs.Search.Calls

/-!
# What holds along every branch of a search

A machine stands for branches: the goals at hand, and those that each choice would bring back. It
works on the first branch and keeps the others, so whatever every step along a branch keeps holds of
all branches of the machine, and of the bindings that it finds (`Machine.Kept`). In one tree a step
tests what a node looks like, goes to a candidate of a relation or passes by what has no solution
(`Branch.StepIn`). What can be said of steps in any tree (`Branch.Step`) holds whether or not the
tree is changed between two matches.

In this way every match that an enumeration reports binds the variables that stand outside
negations, optional conditions and disjunctions (`Pattern.Reports.bound`).
-/

namespace Constituency

/-- Goals still to be reached, and the bindings made so far. -/
abbrev Branch := List Goal × Bindings

/-- A step along a branch, in some tree. -/
inductive Branch.Step : Branch → Branch → Prop where
  | enter {s : Scene} {d : Description} {v : Option VarId} {c : Option Condition} {id : NodeId}
    {gs : List Goal} {b b' : Bindings} : s.enter d v id b = some b' →
    Step (.fits id (.mk d v c) :: gs, b) ((c.map (.meets id)).toList ++ gs, b')
  | all {cs : List Condition} {id : NodeId} {gs : List Goal} {b : Bindings} :
    Step (.meets id (.all cs) :: gs, b) (cs.map (.meets id) ++ gs, b)
  | any {c : Condition} {cs : List Condition} {id : NodeId} {gs : List Goal} {b : Bindings} :
    c ∈ cs → Step (.meets id (.any cs) :: gs, b) (.meets id c :: gs, b)
  | not {c : Condition} {id : NodeId} {gs : List Goal} {b : Bindings} :
    Step (.meets id (.not c) :: gs, b) (gs, b)
  | skip {c : Condition} {id : NodeId} {gs : List Goal} {b : Bindings} :
    Step (.meets id (.optional c) :: gs, b) (gs, b)
  | take {c : Condition} {id : NodeId} {gs : List Goal} {b : Bindings} :
    Step (.meets id (.optional c) :: gs, b) (.meets id c :: gs, b)
  | related {r : Relation} {p : NodePattern} {id x : NodeId} {gs : List Goal} {b : Bindings} :
    Step (.meets id (.related r p) :: gs, b) (.fits x p :: gs, b)

/-- A step along a branch in a tree: what is passed by there has no solution, and what is gone to is
a candidate. -/
inductive Branch.StepIn (s : Scene) : Branch → Branch → Prop where
  | enter {d : Description} {v : Option VarId} {c : Option Condition} {id : NodeId}
    {gs : List Goal} {b b' : Bindings} : s.enter d v id b = some b' →
    StepIn s (.fits id (.mk d v c) :: gs, b) ((c.map (.meets id)).toList ++ gs, b')
  | all {cs : List Condition} {id : NodeId} {gs : List Goal} {b : Bindings} :
    StepIn s (.meets id (.all cs) :: gs, b) (cs.map (.meets id) ++ gs, b)
  | any {c : Condition} {cs : List Condition} {id : NodeId} {gs : List Goal} {b : Bindings} :
    c ∈ cs → StepIn s (.meets id (.any cs) :: gs, b) (.meets id c :: gs, b)
  | not {c : Condition} {id : NodeId} {gs : List Goal} {b : Bindings} :
    c.solutions s id b = [] → StepIn s (.meets id (.not c) :: gs, b) (gs, b)
  | skip {c : Condition} {id : NodeId} {gs : List Goal} {b : Bindings} :
    c.solutions s id b = [] → StepIn s (.meets id (.optional c) :: gs, b) (gs, b)
  | take {c : Condition} {id : NodeId} {gs : List Goal} {b : Bindings} :
    StepIn s (.meets id (.optional c) :: gs, b) (.meets id c :: gs, b)
  | related {r : Relation} {p : NodePattern} {id x : NodeId} {gs : List Goal} {b : Bindings} :
    x ∈ r.candidates s b id → StepIn s (.meets id (.related r p) :: gs, b) (.fits x p :: gs, b)

theorem Branch.StepIn.step {s : Scene} {x y : Branch} (h : StepIn s x y) : Step x y := by
  cases h with
  | enter henter => exact .enter henter
  | all => exact .all
  | any hc => exact .any hc
  | not _ => exact .not
  | skip _ => exact .skip
  | take => exact .take
  | related _ => exact .related

/-- The branches that a choice holds. -/
def Choice.branches (c : Choice) : List Branch :=
  c.alternatives.map fun g => (g :: c.goals, c.bindings)

namespace Machine

/-- The branches that choices hold. -/
def branchesOf (cs : List Choice) : List Branch := cs.flatMap Choice.branches

/-- The branches that a machine stands for. -/
def branches (m : Machine) : List Branch := (m.goals, m.bindings) :: branchesOf m.choices

/-- A property of all branches of a machine. -/
def Kept (P : Branch → Prop) (m : Machine) : Prop := ∀ x ∈ m.branches, P x

theorem backtrack_branches {cs : List Choice} {m : Machine} (h : backtrack cs = some m) :
    m.branches = branchesOf cs := by
  have hbranches := backtrack_flatMap (fun gs b => [(gs, b)]) h
  simp only [← List.map_eq_flatMap] at hbranches
  exact hbranches

theorem branch_branches {m m' : Machine} {gs : List Goal} (h : m.branch gs = some m') :
    m'.branches = gs.map (fun g => (g :: m.goals, m.bindings)) ++ branchesOf m.choices := by
  unfold branch at h
  split at h
  · exact absurd h (by simp)
  · obtain rfl := Option.some.inj h
    rfl
  · obtain rfl := Option.some.inj h
    rfl

/-- Work on a goal leads along its branch, and leaves the others. -/
theorem work_branches {s : Scene} {possible : Bool} {m m' : Machine} {g : Goal}
    (htrial : ∀ t, g.trial? = some t → possible = !(t.solutions s m.bindings).isEmpty)
    (h : m.work s possible g = some m') :
    ∀ x ∈ m'.branches,
      Branch.StepIn s (g :: m.goals, m.bindings) x ∨ x ∈ branchesOf m.choices := by
  have hone : ∀ {gs : List Goal} {b : Bindings},
      Branch.StepIn s (g :: m.goals, m.bindings) (gs, b) →
      ∀ x ∈ branches ⟨gs, b, m.choices⟩,
        Branch.StepIn s (g :: m.goals, m.bindings) x ∨ x ∈ branchesOf m.choices := by
    intro gs b hstep x hx
    rcases List.mem_cons.mp hx with rfl | hx
    · exact .inl hstep
    · exact .inr hx
  have hmany : ∀ {gs : List Goal}, m.branch gs = some m' →
      (∀ g' ∈ gs, Branch.StepIn s (g :: m.goals, m.bindings) (g' :: m.goals, m.bindings)) →
      ∀ x ∈ m'.branches,
        Branch.StepIn s (g :: m.goals, m.bindings) x ∨ x ∈ branchesOf m.choices := by
    intro gs hbranch hsteps x hx
    rw [branch_branches hbranch] at hx
    rcases List.mem_append.mp hx with hx | hx
    · obtain ⟨g', hg', rfl⟩ := List.mem_map.mp hx
      exact .inl (hsteps g' hg')
    · exact .inr hx
  have hnone : ∀ {id : NodeId} {c : Condition}, g.trial? = some (.meets id c) → ¬ possible = true →
      c.solutions s id m.bindings = [] := by
    intro id c ht hfalse
    rw [htrial _ ht] at hfalse
    simpa [Goal.solutions] using hfalse
  cases g with
  | fits id p =>
    obtain ⟨d, v, c⟩ := p
    obtain ⟨b, hb, rfl⟩ := Option.map_eq_some_iff.mp h
    exact hone (.enter hb)
  | meets id c =>
    cases c with
    | all cs =>
      obtain rfl := Option.some.inj h
      exact hone .all
    | any cs =>
      refine hmany h fun g' hg' => ?_
      obtain ⟨c, hc, rfl⟩ := List.mem_map.mp hg'
      exact .any hc
    | not c =>
      rw [work] at h
      split at h
      · exact absurd h (by simp)
      · rename_i hfalse
        obtain rfl := Option.some.inj h
        exact hone (.not (hnone rfl hfalse))
    | optional c =>
      obtain rfl := Option.some.inj h
      split
      · exact hone .take
      · rename_i hfalse
        exact hone (.skip (hnone rfl hfalse))
    | related r p =>
      refine hmany h fun g' hg' => ?_
      obtain ⟨x, hx, rfl⟩ := List.mem_map.mp hg'
      exact .related hx

section kept

variable {P : Branch → Prop} {s : Scene} (hP : ∀ x y, Branch.StepIn s x y → P x → P y)

include hP

theorem step_kept {g : Goal} {gs : List Goal} {b : Bindings} {cs : List Choice} {m : Machine}
    (h : Kept P ⟨g :: gs, b, cs⟩) (hm : step s (isPossible s b g) ⟨gs, b, cs⟩ g = some m) :
    m.Kept P := by
  obtain ⟨hfirst, hothers⟩ := List.forall_mem_cons.mp h
  rcases Option.or_eq_some_iff.mp hm with hwork | ⟨_, hback⟩
  · -- the first branch goes on, and may split
    intro x hx
    rcases work_branches (fun _ ht => isPossible_eq ht b) hwork x hx with hstep | hx
    · exact hP _ _ hstep hfirst
    · exact hothers x hx
  · -- the first branch is given up
    intro x hx
    rw [backtrack_branches hback] at hx
    exact hothers x hx

theorem isInvariant_kept : IsInvariant s (Kept P) where
  step h hm := step_kept hP h hm
  back h hm := by
    intro x hx
    rw [backtrack_branches hm] at hx
    exact h x (List.mem_cons_of_mem _ hx)

/-- **What steps keep holds of whatever a machine comes to**, and of the branch of the solution. -/
theorem nextUnseen_kept {seen : List Bindings} {m m' : Machine} {b : Bindings} (h : m.Kept P)
    (hm : m.nextUnseen s seen = some (b, m')) : m'.Kept P ∧ P ([], b) := by
  obtain ⟨hkept, hgoals, rfl⟩ := (isInvariant_kept hP).nextUnseen h hm
  exact ⟨hkept, hgoals ▸ hkept _ (List.mem_cons_self ..)⟩

end kept

end Machine

/-! ## Enumerations -/

namespace Enumeration

/-- The enumerations of a pattern, whatever trees they are asked about. -/
inductive Of (p : Pattern) : Enumeration → Prop where
  | start (mode : Mode) (t : Tree) : Of p (start p mode t)
  | next {e : Enumeration} (t : Tree) : Of p e → Of p (e.next t).2

/-- A property of all branches at the root being tried. -/
structure Kept (p : Pattern) (P : Branch → Prop) (e : Enumeration) : Prop where
  pattern : e.pattern = p
  current : ∀ root machine, e.current = some (root, machine) → machine.Kept P

variable {p : Pattern} {P : Branch → Prop} (hP : ∀ x y, Branch.Step x y → P x → P y)
  {e e' : Enumeration} {t : Tree} {m : Match}

/-- What is known of a match: the names of its variables, and a property of its bindings. -/
structure Found (p : Pattern) (P : Branch → Prop) (m : Match) : Prop where
  names : m.names = p.names
  bindings : P ([], m.bindings)

include hP

/-- What is kept at the root of a match holds of the match, and of what is left to try there. -/
theorem leave_kept {machine left : Machine} (hpattern : e.pattern = p) (h : machine.Kept P)
    (hnext : machine.nextUnseen (e.scene t) e.seen = some (m.bindings, left))
    (hnames : m.names = e.pattern.names) : Found p P m ∧ (e.leave m left).Kept p P := by
  obtain ⟨hleft, hb⟩ := Machine.nextUnseen_kept (fun x y hxy => hP x y hxy.step) h hnext
  refine ⟨⟨hnames.trans (congrArg Pattern.names hpattern), hb⟩, hpattern, fun root machine hc => ?_⟩
  unfold leave at hc
  dsimp only at hc
  split at hc
  · exact absurd hc (by simp)
  · obtain ⟨_, rfl⟩ := Prod.mk.inj (Option.some.inj hc)
    exact hleft

variable (hstart : ∀ root, P ([.fits root p.root], .unbound p.names.length))

include hstart

theorem next_kept (h : e.Kept p P) :
    (∀ m, (e.next t).1 = some m → Found p P m) ∧ (e.next t).2.Kept p P := by
  rcases hnext : e.next t with ⟨_ | m, e'⟩
  · refine ⟨fun _ hm => absurd hm (by simp), ?_⟩
    rcases next_silent hnext with ⟨_, hstopped⟩ | htried
    · rw [hstopped]
      exact ⟨h.pattern, h.current⟩
    · rw [htried]
      exact ⟨h.pattern, fun _ _ hc => absurd hc (by simp)⟩
  · obtain ⟨_, hnames, hreporting⟩ := next_reporting hnext
    have hfound : Found p P m ∧ e'.Kept p P := by
      cases hreporting with
      | resumed hcurrent hunseen =>
        exact leave_kept hP h.pattern (h.current _ _ hcurrent) hunseen hnames
      | @turned skipped rest left _ hunseen =>
        refine leave_kept hP (e := e.turnTo m.root rest) h.pattern ?_ hunseen hnames
        intro x hx
        rw [List.mem_singleton.mp hx, h.pattern]
        exact hstart m.root
    exact ⟨fun _ hsame => Option.some.inj hsame ▸ hfound.1, hfound.2⟩

/-- **What steps keep holds of every match**, whatever is done to the tree between two of them. -/
theorem Of.kept (h : Of p e) : e.Kept p P := by
  induction h with
  | start mode t => exact ⟨rfl, fun _ _ hc => absurd hc (by simp [Enumeration.start])⟩
  | next t _ ih => exact (next_kept hP hstart ih).2

end Enumeration

/-! ## Variables that are always bound -/

/-- The variables that are bound where a goal is reached. -/
def Goal.alwaysBound : Goal → List VarId
  | .fits _ p => p.alwaysBound
  | .meets _ c => c.alwaysBound

theorem Goal.mem_alwaysBound_fits {id : NodeId} {d : Description} {v : Option VarId}
    {c : Option Condition} {w : VarId} : w ∈ (Goal.fits id (.mk d v c)).alwaysBound ↔
      v = some w ∨ ∃ c', c = some c' ∧ w ∈ c'.alwaysBound := by
  cases c <;> simp [Goal.alwaysBound, NodePattern.alwaysBound, Option.mem_toList]

namespace Bindings

variable {b : Bindings} {v w : VarId} {id : NodeId}

@[simp] theorem length_bind : (b.bind v id).length = b.length := List.length_set

theorem node?_bind_self (hv : v < b.length) : (b.bind v id).node? v = some id := by
  rw [node?, bind, List.getElem?_set_self hv]
  rfl

/-- To bind a variable leaves no other one unbound. -/
theorem node?_bind_isSome (h : (b.node? w).isSome = true) :
    ((b.bind v id).node? w).isSome = true := by
  by_cases hvw : v = w
  · subst hvw
    have hv : v < b.length := by
      by_contra hv
      rw [node?, List.getElem?_eq_none (Nat.le_of_not_lt hv)] at h
      exact absurd h (by simp)
    rw [node?_bind_self hv]
    rfl
  · rw [node?, bind, List.getElem?_set_ne hvw]
    exact h

/-- The second bindings are for the same variables, and bind those that the first bind. -/
structure Extends (b b' : Bindings) : Prop where
  length : b'.length = b.length
  bound : ∀ w, (b.node? w).isSome = true → (b'.node? w).isSome = true

theorem extends_bind (b : Bindings) (v : VarId) (id : NodeId) : b.Extends (b.bind v id) :=
  ⟨length_bind, fun _ h => node?_bind_isSome h⟩

theorem Extends.refl (b : Bindings) : b.Extends b := ⟨rfl, fun _ h => h⟩

theorem Extends.trans {b b' b'' : Bindings} (h : b.Extends b') (h' : b'.Extends b'') :
    b.Extends b'' :=
  ⟨h'.length.trans h.length, fun w hw => h'.bound w (h.bound w hw)⟩

end Bindings

theorem Description.extends_bindReference (d : Description) (b : Bindings) (id : NodeId) :
    b.Extends (d.bindReference b id) := by
  unfold bindReference
  split
  · split
    · exact b.extends_bind _ id
    · exact .refl b
  · exact .refl b

/-- To enter a node binds its variable. -/
theorem Scene.enter_extends {s : Scene} {d : Description} {v : Option VarId} {id : NodeId}
    {b b' : Bindings} (h : s.enter d v id b = some b') :
    b.Extends b' ∧ ∀ w, v = some w → w < b.length → (b'.node? w).isSome = true := by
  have hreference := d.extends_bindReference b id
  unfold enter at h
  split at h
  · unfold Bindings.capture at h
    split at h
    · exact ⟨Option.some.inj h ▸ hreference, fun _ hw => absurd hw (by simp)⟩
    · split at h
      · obtain rfl := Option.some.inj h
        refine ⟨hreference.trans (Bindings.extends_bind ..), fun w hw hlt => ?_⟩
        rw [Option.some.inj hw, Bindings.node?_bind_self (by rwa [hreference.length])]
        rfl
      · exact absurd h (by simp)
  · exact absurd h (by simp)

/-- A branch along which all of some variables, numbered below `n`, get bound. -/
structure Branch.Binding (n : Nat) (vs : List VarId) (x : Branch) : Prop where
  length : x.2.length = n
  bound : ∀ v ∈ vs, v < n → (x.2.node? v).isSome = true ∨ ∃ g ∈ x.1, v ∈ g.alwaysBound

/-- **What a step along a branch passes by is bound, or still among the goals.** -/
theorem Branch.Binding.step {n : Nat} {vs : List VarId} {x y : Branch} (h : x.Binding n vs)
    (hstep : Step x y) : y.Binding n vs := by
  -- What the first goal binds for sure comes to be bound, or is left to the goals put in its place.
  have hlater : ∀ (gs' : List Goal) {g : Goal} {gs : List Goal} {b : Bindings},
      Branch.Binding n vs (g :: gs, b) →
      (∀ v ∈ g.alwaysBound, ∃ g' ∈ gs' ++ gs, v ∈ g'.alwaysBound) →
      Branch.Binding n vs (gs' ++ gs, b) := by
    intro gs' g gs b h hg
    refine ⟨h.length, fun v hv hlt => (h.bound v hv hlt).imp_right ?_⟩
    rintro ⟨g', hg', hin⟩
    rcases List.mem_cons.mp hg' with rfl | hg'
    · exact hg v hin
    · exact ⟨g', List.mem_append_right _ hg', hin⟩
  cases hstep with
  | @enter s d v c id gs b b' henter =>
    obtain ⟨hext, hself⟩ := Scene.enter_extends henter
    refine ⟨hext.length.trans h.length, fun w hw hlt => ?_⟩
    rcases h.bound w hw hlt with hbound | ⟨g, hg, hin⟩
    · exact .inl (hext.bound w hbound)
    · rcases List.mem_cons.mp hg with rfl | hg
      · rcases Goal.mem_alwaysBound_fits.mp hin with hv | ⟨c, rfl, hinner⟩
        · exact .inl (hself w hv (h.length.symm ▸ hlt))
        · exact .inr ⟨.meets id c, List.mem_cons_self .., hinner⟩
      · exact .inr ⟨g, List.mem_append_right _ hg, hin⟩
  | @all cs id gs b =>
    refine hlater _ h fun v hv => ?_
    rw [Goal.alwaysBound, Condition.alwaysBound, Condition.alwaysBoundAll_eq_flatMap] at hv
    obtain ⟨c, hc, hin⟩ := List.mem_flatMap.mp hv
    exact ⟨.meets id c, List.mem_append_left _ (List.mem_map_of_mem hc), hin⟩
  | any => exact hlater [_] h fun v hv => absurd hv List.not_mem_nil
  | not => exact hlater [] h fun v hv => absurd hv List.not_mem_nil
  | skip => exact hlater [] h fun v hv => absurd hv List.not_mem_nil
  | take => exact hlater [_] h fun v hv => absurd hv List.not_mem_nil
  | related => exact hlater [_] h fun v hv => ⟨_, List.mem_cons_self .., hv⟩

namespace Pattern

/-- A match that an enumeration reports, whatever was done to the tree since it began. -/
def Reports (p : Pattern) (m : Match) : Prop :=
  ∃ e t, Enumeration.Of p e ∧ (e.next t).1 = some m

theorem reports_of_mem_remaining {p : Pattern} {e : Enumeration} {t : Tree} {m : Match}
    (he : Enumeration.Of p e) (hm : m ∈ e.remaining t) : p.Reports m := by
  induction e using Enumeration.remaining.induct t with
  | case1 e e' hnext =>
    rw [Enumeration.remaining_of_next_none hnext] at hm
    exact absurd hm (by simp)
  | case2 e first e' hnext ih =>
    rw [Enumeration.remaining_of_next hnext] at hm
    rcases List.mem_cons.mp hm with rfl | hm
    · exact ⟨e, t, he, congrArg Prod.fst hnext⟩
    · have hof := he.next t
      rw [hnext] at hof
      exact ih hof hm

/-- The matches that a search finds are reported. -/
theorem reports_of_mem_search {p : Pattern} {mode : Mode} {t : Tree} {m : Match}
    (h : m ∈ p.search mode t) : p.Reports m :=
  reports_of_mem_remaining (.start mode t) h

/-- **Every match binds the variables that are always bound.** -/
theorem Reports.bound {p : Pattern} {m : Match} (h : p.Reports m) :
    m.names = p.names ∧
      ∀ v ∈ p.root.alwaysBound, v < p.names.length → (m.bindings.node? v).isSome = true := by
  obtain ⟨e, t, he, hm⟩ := h
  have hP : ∀ x y, Branch.Step x y → x.Binding p.names.length p.root.alwaysBound →
      y.Binding p.names.length p.root.alwaysBound := fun _ _ hstep hx => hx.step hstep
  have hstart : ∀ root, Branch.Binding p.names.length p.root.alwaysBound
      ([.fits root p.root], .unbound p.names.length) := fun root =>
    ⟨List.length_replicate, fun v hv _ => .inr ⟨_, List.mem_singleton_self _, hv⟩⟩
  obtain ⟨hnames, hbindings⟩ := (Enumeration.next_kept hP hstart (he.kept hP hstart)).1 m hm
  refine ⟨hnames, fun v hv hlt => (hbindings.bound v hv hlt).resolve_right ?_⟩
  exact fun ⟨_, hg, _⟩ => absurd hg (by simp)

end Pattern

end Constituency
