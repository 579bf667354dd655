import Mathlib.Data.List.Induction
import Constituency.Proofs.Search.Branches
import Constituency.Proofs.Search.Staleness

/-!
# The labels under which a match was found

A machine that is resumed goes on with choices that it made before. The tests before such a choice
are not made again, so that after nodes have been relabelled a match may rest on labels that are
gone. What holds instead is said along the branch that leads to a match: it passes through the calls
made at its root, and each of its steps is one in the tree that was asked about at that call
(`Branch.Passes`).

A first match at a root comes from a new machine. All its tests are made at one call, and its
bindings are a solution in the tree of that call (`Branch.solution_of_steps`).
-/

namespace Constituency

open Constituency.Tree

/-! ## What a search sees of an index -/

/-- Two indexes of the same nodes in the same order, with the same spans. -/
structure Index.Agrees (i j : Index) : Prop where
  preorder : j.preorder = i.preorder
  span : ∀ n, j.span n = i.span n

section agrees

variable {t : Tree} {marks : Marks} {i j : Index}

theorem Relation.candidates_congr (h : i.Agrees j) (r : Relation) (b : Bindings) (id : NodeId) :
    r.candidates ⟨t, j, marks⟩ b id = r.candidates ⟨t, i, marks⟩ b id := by
  have hspan : ∀ holds, bySpan j id holds = bySpan i id holds := by
    intro holds
    unfold bySpan
    rw [h.span, h.preorder, funext h.span]
  cases r with
  | precedes => exact hspan _
  | immediatelyPrecedes => exact hspan _
  | follows => exact hspan _
  | immediatelyFollows => exact hspan _
  | _ => rfl

mutual

theorem NodePattern.solutions_congr (h : i.Agrees j) : ∀ (p : NodePattern) (id : NodeId)
    (b : Bindings), p.solutions ⟨t, j, marks⟩ id b = p.solutions ⟨t, i, marks⟩ id b
  | .mk d v none, id, b => rfl
  | .mk d v (some c), id, b => by
    rw [NodePattern.solutions, NodePattern.solutions]
    show (match Scene.enter ⟨t, i, marks⟩ d v id b with | none => [] | some b => _) = _
    cases Scene.enter ⟨t, i, marks⟩ d v id b with
    | none => rfl
    | some b => exact c.solutions_congr h id b

theorem Condition.solutions_congr (h : i.Agrees j) : ∀ (c : Condition) (id : NodeId)
    (b : Bindings), c.solutions ⟨t, j, marks⟩ id b = c.solutions ⟨t, i, marks⟩ id b
  | .all cs, id, b => by
    rw [Condition.solutions, Condition.solutions, Condition.solutionsAll_congr h cs]
  | .any cs, id, b => by
    rw [Condition.solutions, Condition.solutions, Condition.solutionsAny_congr h cs]
  | .not c, id, b => by
    rw [Condition.solutions, Condition.solutions, c.solutions_congr h]
  | .optional c, id, b => by
    rw [Condition.solutions, Condition.solutions, c.solutions_congr h]
  | .related r p, id, b => by
    rw [Condition.solutions, Condition.solutions, r.candidates_congr h]
    exact List.flatMap_congr fun x _ => p.solutions_congr h x b

theorem Condition.solutionsAll_congr (h : i.Agrees j) : ∀ (cs : List Condition) (id : NodeId)
    (b : Bindings),
    Condition.solutionsAll ⟨t, j, marks⟩ cs id b = Condition.solutionsAll ⟨t, i, marks⟩ cs id b
  | [], id, b => by rw [Condition.solutionsAll, Condition.solutionsAll]
  | c :: cs, id, b => by
    rw [Condition.solutionsAll, Condition.solutionsAll, c.solutions_congr h]
    exact List.flatMap_congr fun b _ => Condition.solutionsAll_congr h cs id b

theorem Condition.solutionsAny_congr (h : i.Agrees j) : ∀ (cs : List Condition) (id : NodeId)
    (b : Bindings),
    Condition.solutionsAny ⟨t, j, marks⟩ cs id b = Condition.solutionsAny ⟨t, i, marks⟩ cs id b
  | [], id, b => by rw [Condition.solutionsAny, Condition.solutionsAny]
  | c :: cs, id, b => by
    rw [Condition.solutionsAny, Condition.solutionsAny, c.solutions_congr h,
      Condition.solutionsAny_congr h cs]

end

end agrees

/-- What has not been counted leaves the index as it would be made anew. -/
theorem Tree.Uncounted.index_agrees {t u : Tree} (hu : t.Uncounted u) (h : t.WellFormed) :
    (Index.build t).Agrees (Index.build u) := by
  have hsame := hu.edits.sameAttached h hu.revision
  exact ⟨hsame.attached,
    Index.span_along hsame.along h (h.edits hu.edits).1 Function.injective_id⟩

/-! ## Steps in one tree after the other -/

namespace Branch

variable {s : Scene} {ss : List Scene} {x y z : Branch}

/-- A branch leads to another by steps in several scenes, one after the other. -/
def Passes : List Scene → Branch → Branch → Prop
  | [], x, y => x = y
  | s :: ss, x, z => ∃ y, Relation.ReflTransGen (StepIn s) x y ∧ Passes ss y z

theorem passes_append {rs : List Scene} :
    Passes (rs ++ ss) x z ↔ ∃ y, Passes rs x y ∧ Passes ss y z := by
  induction rs generalizing x with
  | nil => exact ⟨fun h => ⟨x, rfl, h⟩, fun ⟨_, hxy, h⟩ => hxy ▸ h⟩
  | cons r rs ih =>
    constructor
    · rintro ⟨w, hw, h⟩
      obtain ⟨y, hy, hz⟩ := ih.mp h
      exact ⟨y, ⟨w, hw, hy⟩, hz⟩
    · rintro ⟨y, ⟨w, hw, hy⟩, hz⟩
      exact ⟨w, hw, ih.mpr ⟨y, hy, hz⟩⟩

/-- The steps in a last scene come last. -/
theorem passes_concat :
    Passes (ss ++ [s]) x z ↔ ∃ y, Passes ss x y ∧ Relation.ReflTransGen (StepIn s) y z := by
  rw [passes_append]
  refine exists_congr fun y => and_congr_right fun _ => ?_
  exact ⟨fun ⟨_, h, hz⟩ => hz ▸ h, fun h => ⟨z, h, rfl⟩⟩

theorem Passes.step (h : Passes (ss ++ [s]) x y) (hyz : StepIn s y z) :
    Passes (ss ++ [s]) x z := by
  obtain ⟨w, hw, hwy⟩ := passes_concat.mp h
  exact passes_concat.mpr ⟨w, hw, hwy.tail hyz⟩

/-- Scenes that are all the same count as one. -/
theorem Passes.steps_of_eq (h : Passes ss x y) (hss : ∀ s' ∈ ss, s' = s) :
    Relation.ReflTransGen (StepIn s) x y := by
  induction ss generalizing x with
  | nil => exact h ▸ .refl
  | cons s' ss ih =>
    obtain ⟨w, hw, hy⟩ := h
    obtain ⟨hhead, htail⟩ := List.forall_mem_cons.mp hss
    exact (hhead ▸ hw).trans (ih hy htail)

theorem Passes.map {α : Type} {f g : α → Scene} {as : List α} (h : Passes (as.map f) x y)
    (hsteps : ∀ a ∈ as, ∀ x y, StepIn (f a) x y → StepIn (g a) x y) : Passes (as.map g) x y := by
  induction as generalizing x with
  | nil => exact h
  | cons a as ih =>
    obtain ⟨w, hw, hy⟩ := h
    obtain ⟨hhead, htail⟩ := List.forall_mem_cons.mp hsteps
    exact ⟨w, Relation.ReflTransGen.mono hhead _ _ hw, ih hy htail⟩

/-- What every step keeps holds at the end of a path. -/
theorem Passes.kept {P : Branch → Prop} (h : Passes ss x y)
    (hP : ∀ s ∈ ss, ∀ x y, StepIn s x y → P x → P y) (hx : P x) : P y := by
  induction ss generalizing x with
  | nil => exact h ▸ hx
  | cons s ss ih =>
    obtain ⟨w, hw, hy⟩ := h
    obtain ⟨hhead, htail⟩ := List.forall_mem_cons.mp hP
    refine ih hy htail ?_
    clear hy
    induction hw with
    | refl => exact hx
    | tail _ hstep ih => exact hhead _ _ hstep ih

/-- Steps do not depend on more of an index than the order of the nodes and their spans. -/
theorem StepIn.congr {t : Tree} {marks : Marks} {i j : Index} (h : i.Agrees j)
    (hxy : StepIn ⟨t, i, marks⟩ x y) : StepIn ⟨t, j, marks⟩ x y := by
  cases hxy with
  | enter henter => exact .enter henter
  | all => exact .all
  | any hc => exact .any hc
  | not hnone => exact .not ((Condition.solutions_congr h ..).trans hnone)
  | skip hnone => exact .skip ((Condition.solutions_congr h ..).trans hnone)
  | take => exact .take
  | related hx => exact .related (Relation.candidates_congr h .. ▸ hx)

/-- **What a step leads to is a part of what was there**: the bindings that come of the goals after
a step come of those before it. -/
theorem StepIn.solutions (hxy : StepIn s x y) {b : Bindings}
    (hb : b ∈ Goal.solutionsAll s y.1 y.2) : b ∈ Goal.solutionsAll s x.1 x.2 := by
  cases hxy with
  | @enter d v c id gs b₀ b₁ henter =>
    rw [Goal.solutionsAll, Goal.solutions]
    cases c with
    | none =>
      rw [NodePattern.solutions, henter, Option.toList_some, List.flatMap_singleton]
      exact hb
    | some c =>
      rw [NodePattern.solutions, henter]
      exact hb
  | @all cs id gs b₀ =>
    rw [Machine.solutionsAll_append, Machine.solutionsAll_meets] at hb
    rw [Goal.solutionsAll, Goal.solutions, Condition.solutions]
    exact hb
  | @any c cs id gs b₀ hc =>
    rw [Goal.solutionsAll] at hb
    obtain ⟨b₁, hb₁, hb⟩ := List.mem_flatMap.mp hb
    rw [Goal.solutionsAll, Machine.solutions_any]
    exact List.mem_flatMap.mpr
      ⟨b₁, List.mem_flatMap.mpr ⟨_, List.mem_map_of_mem hc, hb₁⟩, hb⟩
  | not hnone =>
    rw [Goal.solutionsAll, Goal.solutions, Condition.solutions, hnone]
    simpa using hb
  | skip hnone =>
    rw [Goal.solutionsAll, Goal.solutions, Condition.solutions, hnone]
    simpa using hb
  | @take c id gs b₀ =>
    rw [Goal.solutionsAll] at hb
    obtain ⟨b₁, hb₁, hb⟩ := List.mem_flatMap.mp hb
    rw [Goal.solutions] at hb₁
    rw [Goal.solutionsAll, Goal.solutions, Condition.solutions]
    refine List.mem_flatMap.mpr ⟨b₁, ?_, hb⟩
    split
    · rename_i hnone
      rw [hnone] at hb₁
      exact absurd hb₁ List.not_mem_nil
    · exact hb₁
  | @related r p id n gs b₀ hn =>
    rw [Goal.solutionsAll] at hb
    obtain ⟨b₁, hb₁, hb⟩ := List.mem_flatMap.mp hb
    rw [Goal.solutionsAll, Machine.solutions_related]
    exact List.mem_flatMap.mpr
      ⟨b₁, List.mem_flatMap.mpr ⟨_, List.mem_map_of_mem (f := (Goal.fits · p)) hn, hb₁⟩, hb⟩

theorem solutions_of_steps {b : Bindings} (h : Relation.ReflTransGen (StepIn s) x ([], b)) :
    b ∈ Goal.solutionsAll s x.1 x.2 := by
  induction h using Relation.ReflTransGen.head_induction_on with
  | refl => exact List.mem_singleton_self b
  | head hstep _ ih => exact hstep.solutions ih

/-- **A branch that comes to its end in one scene has found a solution there.** -/
theorem solution_of_steps {p : NodePattern} {id : NodeId} {b b' : Bindings}
    (h : Relation.ReflTransGen (StepIn s) ([.fits id p], b) ([], b')) :
    b' ∈ p.solutions s id b := by
  simpa [Goal.solutionsAll, Goal.solutions] using solutions_of_steps h

end Branch

/-! ## The calls at one root -/

/-- The branch with which the search at a root begins. -/
def Pattern.startAt (p : Pattern) (root : NodeId) : Branch :=
  ([.fits root p.root], .unbound p.names.length)

namespace Machine

variable {s : Scene} {ss : List Scene} {x : Branch} {m left : Machine} {b : Bindings}

/-- **A call adds steps in its scene to the paths of all branches**, that of the solution
included. -/
theorem nextUnseen_passes {seen : List Bindings} (h : m.Kept (Branch.Passes ss x))
    (hnext : m.nextUnseen s seen = some (b, left)) :
    left.Kept (Branch.Passes (ss ++ [s]) x) ∧ Branch.Passes (ss ++ [s]) x ([], b) :=
  nextUnseen_kept (fun _ _ hyz hy => hy.step hyz)
    (fun y hy => Branch.passes_concat.mpr ⟨y, h y hy, .refl⟩) hnext

end Machine

namespace Enumeration

variable {e e' : Enumeration} {t : Tree} {ts : List Tree} {m : Match}

theorem after_alike (hts : ∀ u ∈ ts, e.isStale u = false) : Alike e (e.after ts) := by
  induction ts generalizing e with
  | nil => exact ⟨rfl, rfl, rfl, rfl, rfl⟩
  | cons t ts ih =>
    obtain ⟨hhead, htail⟩ := List.forall_mem_cons.mp hts
    have hnext := next_alike hhead
    exact hnext.trans (ih fun u hu => (hnext.isStale u).trans (htail u hu))

/-- The last calls, all of which reported a match at a given root. -/
def ReportedSince (e : Enumeration) (ts since : List Tree) (root : NodeId) : Prop :=
  ∃ earlier, ts = earlier ++ since ∧
    ∀ a ∈ (e.after earlier).answers since, ∃ m, a = some m ∧ m.root = root

theorem reportedSince_nil (e : Enumeration) (ts : List Tree) (root : NodeId) :
    e.ReportedSince ts [] root :=
  ⟨ts, (List.append_nil ts).symm, fun _ ha => absurd ha List.not_mem_nil⟩

theorem ReportedSince.concat {since : List Tree} (h : e.ReportedSince ts since m.root)
    (hnext : ((e.after ts).next t).1 = some m) :
    e.ReportedSince (ts ++ [t]) (since ++ [t]) m.root := by
  obtain ⟨earlier, rfl, hall⟩ := h
  refine ⟨earlier, List.append_assoc .., fun a ha => ?_⟩
  rw [answers_append, ← after_append] at ha
  rcases List.mem_append.mp ha with ha | ha
  · exact hall a ha
  · exact ⟨m, (List.mem_singleton.mp ha).trans hnext, rfl⟩

/-- What is known of a machine after the calls at its root: the paths of its branches. -/
structure Tracked (e : Enumeration) (ts : List Tree) (root : NodeId) (machine : Machine)
    (since : List Tree) : Prop where
  reported : e.ReportedSince ts since root
  allBindings : e.mode = .allBindings
  paths : machine.Kept (Branch.Passes (since.map e.scene) (e.pattern.startAt root))

/-- The path to a match passes through the calls at its root, and so do those of the branches that
are left there. -/
theorem reporting_passes (hsame : Alike e (e.after ts))
    (htracked : ∀ root machine, (e.after ts).current = some (root, machine) →
      ∃ since, e.Tracked ts root machine since)
    (hnext : (e.after ts).next t = (some m, e')) :
    ∃ since, e.ReportedSince ts since m.root ∧ (e.mode = .firstPerRoot → since = []) ∧
      Branch.Passes ((since ++ [t]).map e.scene) (e.pattern.startAt m.root) ([], m.bindings) ∧
      ∀ root machine, e'.current = some (root, machine) →
        e.Tracked (ts ++ [t]) root machine (since ++ [t]) := by
  have hscene : (e.after ts).scene t = e.scene t := by
    rw [scene, scene, hsame.index, hsame.pattern]
  -- whichever machine the match comes from, the call adds its steps to the paths
  have hcall : ∀ {machine left : Machine} {seen since : List _},
      e.ReportedSince ts since m.root →
      machine.Kept (Branch.Passes (since.map e.scene) (e.pattern.startAt m.root)) →
      machine.nextUnseen (e.scene t) seen = some (m.bindings, left) →
      (∀ root machine, e'.current = some (root, machine) →
        e.mode = .allBindings ∧ root = m.root ∧ machine = left) →
      Branch.Passes ((since ++ [t]).map e.scene) (e.pattern.startAt m.root) ([], m.bindings) ∧
      ∀ root machine, e'.current = some (root, machine) →
        e.Tracked (ts ++ [t]) root machine (since ++ [t]) := by
    intro machine left seen since hsince hkept hunseen hcurrent
    obtain ⟨hleft, hfound⟩ := Machine.nextUnseen_passes hkept hunseen
    rw [List.map_append, List.map_singleton]
    refine ⟨hfound, fun root machine hc => ?_⟩
    obtain ⟨hmode, rfl, rfl⟩ := hcurrent root machine hc
    refine ⟨hsince.concat (by rw [hnext]), hmode, ?_⟩
    rwa [List.map_append, List.map_singleton]
  have hleave : ∀ {e₁ : Enumeration} {left : Machine}, e₁.mode = e.mode →
      ∀ root machine, (e₁.leave m left).current = some (root, machine) →
        e.mode = .allBindings ∧ root = m.root ∧ machine = left := by
    intro e₁ left hmode root machine hc
    unfold leave at hc
    dsimp only at hc
    split at hc
    · exact absurd hc (by simp)
    · rename_i hall
      obtain ⟨rfl, rfl⟩ := Prod.mk.inj (Option.some.inj hc)
      exact ⟨hmode.symm.trans hall, rfl, rfl⟩
  obtain ⟨_, _, hreporting⟩ := next_reporting hnext
  cases hreporting with
  | @resumed machine left hcurrent hunseen =>
    obtain ⟨since, hsince, hmode, hkept⟩ := htracked _ _ hcurrent
    rw [hscene] at hunseen
    refine ⟨since, hsince, fun hfirst => ?_,
      hcall hsince hkept hunseen (hleave hsame.mode)⟩
    rw [hmode] at hfirst
    exact absurd hfirst (by decide)
  | @turned skipped rest left _ hunseen =>
    rw [hscene, hsame.pattern] at hunseen
    refine ⟨[], e.reportedSince_nil ts m.root, fun _ => rfl,
      hcall (e.reportedSince_nil ts m.root) ?_ hunseen (hleave hsame.mode)⟩
    intro x hx
    exact (List.mem_singleton.mp hx).symm

theorem after_concat (e : Enumeration) (ts : List Tree) (t : Tree) :
    e.after (ts ++ [t]) = ((e.after ts).next t).2 :=
  after_append e ts [t]

/-- **After any calls, the branches left have passed through those at their root.** -/
theorem tracked (hcurrent : e.current = none) (hts : ∀ u ∈ ts, e.isStale u = false) :
    ∀ root machine, (e.after ts).current = some (root, machine) →
      ∃ since, e.Tracked ts root machine since := by
  induction ts using List.reverseRecOn with
  | nil =>
    intro root machine hc
    exact absurd (hcurrent.symm.trans hc) (by simp)
  | append_singleton ts t ih =>
    intro root machine hc
    have hbefore : ∀ u ∈ ts, e.isStale u = false := fun u hu => hts u (List.mem_append_left _ hu)
    have hsame := after_alike hbefore
    have hgoes : (e.after ts).isStale t = false :=
      (hsame.isStale t).trans (hts t (List.mem_append_right _ (List.mem_singleton_self t)))
    rw [after_concat] at hc
    rcases hnext : (e.after ts).next t with ⟨_ | m, e'⟩
    · rw [hnext] at hc
      rcases next_silent hnext with ⟨hstale, _⟩ | htried
      · exact absurd (hgoes.symm.trans hstale) Bool.false_ne_true
      · rw [htried] at hc
        exact absurd hc (by simp)
    · obtain ⟨since, _, _, _, htracked⟩ := reporting_passes hsame (ih hbefore) hnext
      rw [hnext] at hc
      exact ⟨since ++ [t], htracked root machine hc⟩

end Enumeration

namespace Pattern

open Enumeration

variable {t₀ t u : Tree} {ts : List Tree}

/-- What a pattern sees of a tree. -/
def sceneOf (p : Pattern) (t : Tree) : Scene := ⟨t, Index.build t, p.marks⟩

/-- An enumeration sees the trees that have not been counted as a new one would. -/
theorem stepIn_sceneOf (h₀ : t₀.WellFormed) (p : Pattern) (mode : Mode) (hu : t₀.Uncounted u)
    (x y : Branch) (hxy : Branch.StepIn ((start p mode t₀).scene u) x y) :
    Branch.StepIn (p.sceneOf u) x y :=
  hxy.congr (hu.index_agrees h₀)

theorem isStale_start_of_uncounted (p : Pattern) (mode : Mode) (hu : t₀.Uncounted u) :
    (start p mode t₀).isStale u = false := by
  show (false || u.revision != t₀.revision) = false
  rw [hu.revision, Bool.false_or, bne_self_eq_false]

/-- The roots of matches are attached nodes. -/
theorem root_mem_attached (h₀ : t₀.WellFormed) (p : Pattern) (mode : Mode) {m : Match}
    (hm : m ∈ (start p mode t₀).reports ts) : m.root ∈ t₀.attached := by
  cases fresh_of_mem_reports hm with
  | unseen hc _ => exact absurd hc (by simp [start])
  | untried hroot => exact (rootsOf_sublist h₀ p).subset hroot

/-- The path to a match passes through trees that were asked about, the last ones, all of which
brought a match at the same root. -/
theorem exists_path (h₀ : t₀.WellFormed) (p : Pattern) (mode : Mode)
    (hts : ∀ u ∈ ts ++ [t], t₀.Uncounted u) {m : Match}
    (hm : (((start p mode t₀).after ts).next t).1 = some m) :
    m.names = p.names ∧ ∃ since, (start p mode t₀).ReportedSince ts since m.root ∧
      (mode = .firstPerRoot → since = []) ∧ (∀ u ∈ since ++ [t], u ∈ ts ++ [t]) ∧
      Branch.Passes ((since ++ [t]).map p.sceneOf) (p.startAt m.root) ([], m.bindings) := by
  have hgoes : ∀ u ∈ ts, (start p mode t₀).isStale u = false := fun u hu =>
    p.isStale_start_of_uncounted mode (hts u (List.mem_append_left _ hu))
  have hsame := after_alike hgoes
  rcases hnext : ((start p mode t₀).after ts).next t with ⟨found, e'⟩
  obtain rfl : found = some m := by rw [← hm, hnext]
  obtain ⟨since, hsince, hmode, hpasses, _⟩ :=
    reporting_passes hsame (tracked rfl hgoes) hnext
  have hmem : ∀ u ∈ since ++ [t], u ∈ ts ++ [t] := by
    obtain ⟨earlier, rfl, _⟩ := hsince
    intro u hu
    rw [List.append_assoc]
    exact List.mem_append_right earlier hu
  refine ⟨(next_reporting hnext).2.1.trans (congrArg names hsame.pattern), since, hsince, hmode,
    hmem, ?_⟩
  exact hpasses.map fun u hu => stepIn_sceneOf h₀ p mode (hts u (hmem u hu))

/-- **Every test on the way to a match holds in the tree of a call made at its root.**

Let an enumeration that began in `t₀` be asked about trees with other labels, `t` being the last of
them. A match that it then reports is about an attached node. The branch that leads to its bindings
passes through the last calls, all of which reported that root, and each of its steps is one in the
tree of its call. If these trees are all the last one, and also if the match is the first at its
root, the bindings are a solution in the last tree. -/
theorem next_passes (h₀ : t₀.WellFormed) (p : Pattern) (mode : Mode)
    (hts : ∀ u ∈ ts ++ [t], t₀.Uncounted u) {m : Match}
    (hm : (((start p mode t₀).after ts).next t).1 = some m) :
    m.root ∈ t.attached ∧
      (∃ since, (start p mode t₀).ReportedSince ts since m.root ∧
        Branch.Passes ((since ++ [t]).map p.sceneOf) (p.startAt m.root) ([], m.bindings) ∧
        ((∀ u ∈ since, u = t) → m.bindings ∈ p.solutionsAt t m.root)) ∧
      ((mode = .firstPerRoot ∨ ∀ m' ∈ (start p mode t₀).reports ts, m'.root ≠ m.root) →
        m.bindings ∈ p.solutionsAt t m.root) := by
  obtain ⟨_, since, hsince, hmode, _, hpath⟩ := exists_path h₀ p mode hts hm
  have hsolution : (∀ u ∈ since, u = t) → m.bindings ∈ p.solutionsAt t m.root := by
    intro hsame
    refine Branch.solution_of_steps (hpath.steps_of_eq (s := p.sceneOf t) fun s hs => ?_)
    obtain ⟨u, hu, rfl⟩ := List.mem_map.mp hs
    rcases List.mem_append.mp hu with hu | hu
    · rw [hsame u hu]
    · rw [List.mem_singleton.mp hu]
  refine ⟨?_, ⟨since, hsince, hpath, hsolution⟩, fun hfirst => hsolution ?_⟩
  · have huncounted := hts t (List.mem_append_right _ (List.mem_singleton_self t))
    rw [(huncounted.edits.sameAttached h₀ huncounted.revision).attached]
    exact root_mem_attached h₀ p mode (mem_reports_concat hm)
  · -- a first match is reported without earlier calls at its root
    have hnil : since = [] := by
      rcases hfirst with hfirst | hfirst
      · exact hmode hfirst
      · obtain ⟨earlier, rfl, hall⟩ := hsince
        cases since with
        | nil => rfl
        | cons u since =>
          obtain ⟨m', hm', hroot⟩ := hall _ (List.mem_cons_self ..)
          refine absurd hroot (hfirst m' ?_)
          rw [reports, answers_append]
          refine List.mem_filterMap.mpr ⟨some m', List.mem_append_right _ ?_, rfl⟩
          exact hm' ▸ List.mem_cons_self ..
    rw [hnil]
    exact fun _ hu => absurd hu List.not_mem_nil

/-- In `(A (B b) (B c))` the pattern `A < B=x` has a match with the first `B`. Then the `A` is
called `C`, and the next match is that with the second `B`. -/
theorem next_after_relabelling (source : String) (visible : List Bool) (marks : Marks) :
    let c : Constituent := .node "A" [.node "B" [.node "b" []], .node "B" [.node "c" []]]
    let t := Tree.ofConstituent (some c)
    let target : NodePattern := .mk ⟨false, .oneOf [.literal "B"], []⟩ (some 0) none
    let root : NodePattern :=
      .mk ⟨false, .oneOf [.literal "A"], []⟩ none (some (.related .parentOf target))
    let p : Pattern := ⟨source, root, ["x"], visible, marks⟩
    (((start p .allBindings t).after [t]).next (t.request (.setLabel 0 "C")).1).1 =
      some ⟨0, [some 3], ["x"]⟩ := by
  intro c t target root p
  let e := start p .allBindings t
  have ht : t.WellFormed := Tree.wellFormed_ofConstituent _
  have hroots : e.roots = [0] := by
    have hlabels := roots_of_labels ht ["A"]
    rw [show t.attached.filter (fun id => t.label id ∈ ["A"]) = [0] by decide] at hlabels
    exact hlabels
  -- the second `B` is left behind as a choice, and the label of the `A` is not looked at again
  let left : Machine := ⟨[], [some 1], [⟨[], [none], [.fits 3 target]⟩]⟩
  have hfirst : (Machine.start root 0 1).nextUnseen (e.scene t) [] = some ([some 1], left) := by
    refine Machine.nextUnseen_of_run (n := left) rfl ?_ rfl
    calc (Machine.start root 0 1).run (e.scene t)
        = Machine.run (e.scene t) ⟨[.meets 0 (.related .parentOf target)], [none], []⟩ :=
          Machine.run_of_step rfl
      _ = Machine.run (e.scene t)
            ⟨[.fits 1 target], [none], [⟨[], [none], [.fits 3 target]⟩]⟩ :=
          Machine.run_of_step rfl
      _ = left.run (e.scene t) := Machine.run_of_step rfl
      _ = some left := Machine.run_nil ..
  have hnext := next_of_turned (isStale_start p .allBindings t) rfl hroots hfirst
  let u := (t.request (.setLabel 0 "C")).1
  let e₁ := (e.turnTo 0 []).leave (e.found 0 [some 1]) left
  have hsecond : left.nextUnseen (e₁.scene u) [[some 1]] =
      some ([some 3], ⟨[], [some 3], []⟩) := by
    refine Machine.nextUnseen_of_run (n := ⟨[], [some 3], []⟩) rfl ?_ rfl
    calc Machine.run (e₁.scene u) ⟨[.fits 3 target], [none], []⟩
        = Machine.run (e₁.scene u) ⟨[], [some 3], []⟩ := Machine.run_of_step rfl
      _ = some ⟨[], [some 3], []⟩ := Machine.run_nil ..
  have hlater : e₁.next u = (some (e₁.found 0 [some 3]), _) :=
    next_of_resumed rfl rfl hsecond
  show ((e.next t).2.next u).1 = _
  rw [hnext]
  exact congrArg Prod.fst hlater

/-- The second match rests on what the `A` was called at the first call and on the second `B` as it
is at the second. -/
theorem next_passes_relabelled :
    let c : Constituent := .node "A" [.node "B" [.node "b" []], .node "B" [.node "c" []]]
    let t := Tree.ofConstituent (some c)
    let u := (t.request (.setLabel 0 "C")).1
    let target : NodePattern := .mk ⟨false, .oneOf [.literal "B"], []⟩ (some 0) none
    let root : NodePattern :=
      .mk ⟨false, .oneOf [.literal "A"], []⟩ none (some (.related .parentOf target))
    let p : Pattern := ⟨"A < B=x", root, ["x"], [true], .standard⟩
    let e := start p .allBindings t
    t.WellFormed ∧ (∀ v ∈ [t] ++ [u], t.Uncounted v) ∧
      ((e.after [t]).next u).1 = some ⟨0, [some 3], ["x"]⟩ ∧ 0 ∈ u.attached ∧
      ∃ since, e.ReportedSince [t] since 0 ∧
        Branch.Passes ((since ++ [u]).map p.sceneOf) (p.startAt 0) ([], [some 3]) := by
  intro c t u target root p e
  have ht : t.WellFormed := Tree.wellFormed_ofConstituent _
  have hts : ∀ v ∈ [t] ++ [u], t.Uncounted v :=
    List.forall_mem_cons.mpr ⟨.refl t, List.forall_mem_singleton.mpr (.setLabel ht 0 "C")⟩
  have hm := next_after_relabelling "A < B=x" [true] .standard
  obtain ⟨hroot, ⟨since, hsince, hpath, _⟩, _⟩ := next_passes ht p .allBindings hts hm
  exact ⟨ht, hts, hm, hroot, since, hsince, hpath⟩

/-- In the tree as it is then, the bindings of the second match are no solution: nothing is called
`A` any more. -/
theorem match_under_old_labels :
    let c : Constituent := .node "A" [.node "B" [.node "b" []], .node "B" [.node "c" []]]
    let t := Tree.ofConstituent (some c)
    let u := (t.request (.setLabel 0 "C")).1
    t.WellFormed ∧ 0 ∈ t.attached ∧ ∃ p, Pattern.parse "A < B=x" .standard = .ok p ∧
      (((start p .allBindings t).after [t]).next u).1 = some ⟨0, [some 3], ["x"]⟩ ∧
      [some 3] ∉ p.solutionsAt u 0 := by
  intro c t u
  have hread : (Pattern.parse "A < B=x" .standard).toOption.any (asksForChild "A" "B" "x") =
      true := by
    decide +kernel
  obtain ⟨⟨source, root, names, visible, marks⟩, hp, hasks⟩ := exists_parse hread
  obtain ⟨rfl, rfl⟩ := eq_of_asksForChild hasks
  refine ⟨Tree.wellFormed_ofConstituent _, by decide, _, hp,
    next_after_relabelling source visible marks, fun hmem => ?_⟩
  rw [Pattern.solutionsAt, Enumeration.solutions_of_not_holds rfl] at hmem
  exact absurd hmem List.not_mem_nil

end Pattern

end Constituency
