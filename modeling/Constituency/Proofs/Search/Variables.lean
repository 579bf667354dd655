import Constituency.Proofs.Pattern.Occurrences
import Constituency.Proofs.Relation.Candidates
import Constituency.Proofs.Search.Branches
import Constituency.Proofs.Search.Known

/-!
# The variables of a search

A step along a branch brings in no occurrence of a variable that was not in its goals before, and it
binds only variables that occur there outside negations. Hence what is said of all occurrences in a
pattern stays true of the goals of every machine that comes from it, those of trials included, and
what is said of the occurrences outside negations is true of all variables that a match binds.

For a pattern that was read this means that no variable is looked up beyond the bindings, and that a
match binds only names that are captured outside negations (`Pattern.parse_binds`).
-/

namespace Constituency

/-- The occurrences of variables in a goal. -/
def Goal.occurrences : Goal → List Occurrence
  | .fits _ p => p.occurrences false
  | .meets _ c => c.occurrences false

namespace Branch

/-- The goals of a branch have no occurrences but those that satisfy `P`. -/
def OccursOnly (P : Occurrence → Prop) (x : Branch) : Prop := ∀ g ∈ x.1, ∀ o ∈ g.occurrences, P o

variable {P : Occurrence → Prop} {x y : Branch}

/-- **A step brings in no occurrence.** -/
theorem OccursOnly.step (h : x.OccursOnly P) (hstep : Step x y) : y.OccursOnly P := by
  -- the goals that are put in the place of the first one are made of its parts
  have hlater : ∀ (gs' : List Goal) {g : Goal} {gs : List Goal} {b b' : Bindings},
      OccursOnly P (g :: gs, b) → (∀ g' ∈ gs', ∀ o ∈ g'.occurrences, o ∈ g.occurrences) →
      OccursOnly P (gs' ++ gs, b') := by
    intro gs' g gs b b' h hparts g' hg' o ho
    rcases List.mem_append.mp hg' with hg' | hg'
    · exact h g (List.mem_cons_self ..) o (hparts g' hg' o ho)
    · exact h g' (List.mem_cons_of_mem g hg') o ho
  cases hstep with
  | @enter s d v c id gs b b' _ =>
    refine hlater _ h fun g hg o ho => ?_
    cases c with
    | none => exact absurd hg List.not_mem_nil
    | some c =>
      rw [List.mem_singleton.mp hg] at ho
      exact List.mem_append_right _ ho
  | @all cs id gs b =>
    refine hlater _ h fun g hg o ho => ?_
    obtain ⟨c, hc, rfl⟩ := List.mem_map.mp hg
    rw [Goal.occurrences, Condition.occurrences, Condition.occurrencesAll_eq_flatMap]
    exact List.mem_flatMap.mpr ⟨c, hc, ho⟩
  | @any c cs id gs b hc =>
    refine hlater [_] h fun g hg o ho => ?_
    rw [List.mem_singleton.mp hg] at ho
    rw [Goal.occurrences, Condition.occurrences, Condition.occurrencesAll_eq_flatMap]
    exact List.mem_flatMap.mpr ⟨c, hc, ho⟩
  | not => exact hlater [] h fun g hg => absurd hg List.not_mem_nil
  | skip => exact hlater [] h fun g hg => absurd hg List.not_mem_nil
  | @take c id gs b =>
    refine hlater [_] h fun g hg o ho => ?_
    rw [List.mem_singleton.mp hg] at ho
    exact ho
  | @related r p id x gs b =>
    refine hlater [_] h fun g hg o ho => ?_
    rw [List.mem_singleton.mp hg] at ho
    exact List.mem_append_right _ ho

end Branch

/-! ## What a step binds -/

namespace Bindings

variable {b b' : Bindings} {v w : VarId} {id : NodeId}

theorem isSome_of_bind (h : ((b.bind v id).node? w).isSome = true) :
    w = v ∨ (b.node? w).isSome = true := by
  by_cases hvw : v = w
  · exact .inl hvw.symm
  · right
    rwa [node?, bind, List.getElem?_set_ne hvw] at h

theorem isSome_of_capture {c : Option VarId} (hb : b.capture id c = some b')
    (h : (b'.node? w).isSome = true) : c = some w ∨ (b.node? w).isSome = true := by
  unfold capture at hb
  split at hb
  · exact .inr (Option.some.inj hb ▸ h)
  · split at hb
    · obtain rfl := Option.some.inj hb
      exact (isSome_of_bind h).imp_left (congrArg some ·.symm)
    · exact absurd hb (by simp)

end Bindings

theorem Description.isSome_of_bindReference {d : Description} {b : Bindings} {id : NodeId}
    {w : VarId} (h : ((d.bindReference b id).node? w).isSome = true) :
    w ∈ d.test.references ∨ (b.node? w).isSome = true := by
  unfold bindReference at h
  split at h
  · rename_i v hv
    split at h
    · rw [hv]
      exact (Bindings.isSome_of_bind h).imp_left List.mem_singleton.mpr
    · exact .inr h
  · exact .inr h

/-- To enter a node binds no variable but those that occur in its description and its capture. -/
theorem Scene.isSome_of_enter {s : Scene} {d : Description} {v : Option VarId} {id : NodeId}
    {b b' : Bindings} {w : VarId} (hb : s.enter d v id b = some b')
    (h : (b'.node? w).isSome = true) :
    w ∈ d.test.references ∨ v = some w ∨ (b.node? w).isSome = true := by
  unfold enter at hb
  split at hb
  · rcases Bindings.isSome_of_capture hb h with hv | hbound
    · exact .inr (.inl hv)
    · exact (Description.isSome_of_bindReference hbound).imp_right .inr
  · exact absurd hb (by simp)

namespace Branch

/-- **A step binds only variables that occur in the goals outside negations**, and binds as many as
there were. -/
theorem Step.bindings {x y : Branch} (h : Step x y) :
    y.2.length = x.2.length ∧ ∀ w, (y.2.node? w).isSome = true → (x.2.node? w).isSome = true ∨
      ∃ g ∈ x.1, ∃ o ∈ g.occurrences, o.negated = false ∧ o.var = w := by
  cases h with
  | @enter s d v c id gs b b' henter =>
    refine ⟨(Scene.enter_extends henter).1.length, fun w hw => ?_⟩
    -- what the description refers to and what captures the node are the first of the occurrences
    have hfirst : ∀ o ∈ Occurrence.references false d.test.references ++ Occurrence.capture false v,
        o ∈ (Goal.fits id (.mk d v c)).occurrences := by
      intro o ho
      cases c with
      | none => exact ho
      | some c => exact List.mem_append_left _ ho
    rcases Scene.isSome_of_enter henter hw with hmem | rfl | hbound
    · refine .inr ⟨_, List.mem_cons_self .., ⟨w, false, false⟩, hfirst _ ?_, rfl, rfl⟩
      exact List.mem_append_left _ (List.mem_map_of_mem hmem)
    · refine .inr ⟨_, List.mem_cons_self .., ⟨w, true, false⟩, hfirst _ ?_, rfl, rfl⟩
      exact List.mem_append_right _ (List.mem_singleton_self _)
    · exact .inl hbound
  | all | any | not | skip | take | related => exact ⟨rfl, fun _ hw => .inl hw⟩

/-- All variables in the goals of a branch have places in its bindings. -/
structure InRange (n : Nat) (x : Branch) : Prop where
  length : x.2.length = n
  goals : x.OccursOnly fun o => o.var < n

theorem InRange.step {n : Nat} {x y : Branch} (h : x.InRange n) (hstep : Step x y) : y.InRange n :=
  ⟨hstep.bindings.1.trans h.length, h.goals.step hstep⟩

/-- The variables bound along a branch, and those that can still get bound, satisfy `P`. -/
structure BindsOnly (P : VarId → Prop) (x : Branch) : Prop where
  bound : ∀ w, (x.2.node? w).isSome = true → P w
  goals : x.OccursOnly fun o => o.negated = false → P o.var

theorem BindsOnly.step {P : VarId → Prop} {x y : Branch} (h : x.BindsOnly P) (hstep : Step x y) :
    y.BindsOnly P := by
  refine ⟨fun w hw => ?_, h.goals.step hstep⟩
  rcases hstep.bindings.2 w hw with hbound | ⟨g, hg, o, ho, hnegated, rfl⟩
  · exact h.bound w hbound
  · exact h.goals g hg o ho hnegated

end Branch

/-! ## Machines and trials -/

namespace Machine

/-- The machines that a search for a pattern with `n` variables comes to, those with which it tries
something apart included. The tree may be another one at every step. -/
inductive Reached (p : NodePattern) (n : Nat) : Machine → Prop where
  | start (id : NodeId) : Reached p n (start p id n)
  | step {s : Scene} {g : Goal} {gs : List Goal} {b : Bindings} {cs : List Choice} {m : Machine} :
    Reached p n ⟨g :: gs, b, cs⟩ → step s (isPossible s b g) ⟨gs, b, cs⟩ g = some m → Reached p n m
  | trial {g t : Goal} {gs : List Goal} {b : Bindings} {cs : List Choice} :
    Reached p n ⟨g :: gs, b, cs⟩ → g.trial? = some t → Reached p n ⟨[t], b, []⟩
  | resume {b : Bindings} {cs : List Choice} {m : Machine} :
    Reached p n ⟨[], b, cs⟩ → backtrack cs = some m → Reached p n m

/-- A trial has the variables of the goal that asks for it. -/
theorem var_of_trial {g t : Goal} (h : g.trial? = some t) {o : Occurrence}
    (ho : o ∈ t.occurrences) : ∃ o' ∈ g.occurrences, o'.var = o.var := by
  unfold Goal.trial? at h
  split at h
  · obtain rfl := Option.some.inj h
    rename_i id c
    refine ⟨o.negate, ?_, rfl⟩
    rw [Goal.occurrences, Condition.occurrences, c.occurrences_true false]
    exact List.mem_map_of_mem ho
  · obtain rfl := Option.some.inj h
    exact ⟨o, ho, rfl⟩
  · exact absurd h (by simp)

/-- **In every machine that is reached, all variables have places in the bindings.** -/
theorem Reached.inRange {p : NodePattern} {n : Nat} (hp : ∀ o ∈ p.occurrences false, o.var < n)
    {m : Machine} (h : Reached p n m) : m.Kept (Branch.InRange n) := by
  induction h with
  | start id =>
    intro x hx
    rw [List.mem_singleton.mp hx]
    refine ⟨List.length_replicate, fun g hg o ho => ?_⟩
    rw [List.mem_singleton.mp hg] at ho
    exact hp o ho
  | step _ hstep ih => exact step_kept (fun _ _ hxy hx => hx.step hxy.step) ih hstep
  | @trial g t gs b cs _ htrial ih =>
    obtain ⟨hlength, hgoals⟩ := ih _ (List.mem_cons_self ..)
    intro x hx
    rw [List.mem_singleton.mp hx]
    refine ⟨hlength, fun g' hg' o ho => ?_⟩
    rw [List.mem_singleton.mp hg'] at ho
    obtain ⟨o', ho', hvar⟩ := var_of_trial htrial ho
    exact hvar ▸ hgoals g (List.mem_cons_self ..) o' ho'
  | resume _ hback ih =>
    intro x hx
    rw [backtrack_branches hback] at hx
    exact ih x (List.mem_cons_of_mem _ hx)

end Machine

/-! ## Attached nodes -/

namespace Tree.WellFormed

variable {t : Tree} (h : t.WellFormed) {marks : Marks} {b : Bindings} {a x : NodeId}

include h

/-- Whatever relation is followed, only attached nodes are found from an attached node. -/
theorem candidate_mem_attached {r : Relation} (ha : a ∈ t.attached)
    (hx : x ∈ r.candidates ⟨t, Index.build t, marks⟩ b a) : x ∈ t.attached := by
  cases hup : r.isUpward with
  | false => exact (Relation.candidates_sublist_attached h ha hup).subset hx
  | true =>
    have habove := (Relation.candidates_sublist_ancestors h hup).subset hx
    exact h.mem_attached_of_atOrUnder ha (h.mem_ancestors_iff.mp habove).to_reflTransGen

end Tree.WellFormed

section attached

variable {t : Tree} {marks : Marks}

mutual

/-- The solutions at an attached node bind variables to attached nodes. -/
theorem NodePattern.solutions_attached (h : t.WellFormed) :
    ∀ (p : NodePattern) {id : NodeId} {b : Bindings},
    id ∈ t.attached → (∀ x, some x ∈ b → x ∈ t.attached) →
    ∀ b' ∈ p.solutions ⟨t, Index.build t, marks⟩ id b, ∀ x, some x ∈ b' → x ∈ t.attached
  | .mk d v none, id, b, hid, hb => by
    intro b' hb'
    rw [NodePattern.solutions, Option.mem_toList] at hb'
    exact Scene.enter_all hb hid hb'
  | .mk d v (some c), id, b, hid, hb => by
    intro b' hb'
    rw [NodePattern.solutions] at hb'
    split at hb'
    · exact absurd hb' List.not_mem_nil
    · rename_i b₁ henter
      exact c.solutions_attached h hid (Scene.enter_all hb hid henter) b' hb'

theorem Condition.solutions_attached (h : t.WellFormed) :
    ∀ (c : Condition) {id : NodeId} {b : Bindings},
    id ∈ t.attached → (∀ x, some x ∈ b → x ∈ t.attached) →
    ∀ b' ∈ c.solutions ⟨t, Index.build t, marks⟩ id b, ∀ x, some x ∈ b' → x ∈ t.attached
  | .all cs, id, b, hid, hb => by
    rw [Condition.solutions]
    exact Condition.solutionsAll_attached h cs hid hb
  | .any cs, id, b, hid, hb => by
    rw [Condition.solutions]
    exact Condition.solutionsAny_attached h cs hid hb
  | .not c, id, b, hid, hb => by
    intro b' hb'
    rw [Condition.solutions] at hb'
    split at hb'
    · rw [List.mem_singleton.mp hb']
      exact hb
    · exact absurd hb' List.not_mem_nil
  | .optional c, id, b, hid, hb => by
    intro b' hb'
    rw [Condition.solutions] at hb'
    split at hb'
    · rw [List.mem_singleton.mp hb']
      exact hb
    · exact c.solutions_attached h hid hb b' hb'
  | .related r p, id, b, hid, hb => by
    intro b' hb'
    rw [Condition.solutions] at hb'
    obtain ⟨x, hx, hb'⟩ := List.mem_flatMap.mp hb'
    exact p.solutions_attached h (h.candidate_mem_attached hid hx) hb b' hb'

theorem Condition.solutionsAll_attached (h : t.WellFormed) :
    ∀ (cs : List Condition) {id : NodeId} {b : Bindings},
    id ∈ t.attached → (∀ x, some x ∈ b → x ∈ t.attached) →
    ∀ b' ∈ Condition.solutionsAll ⟨t, Index.build t, marks⟩ cs id b,
      ∀ x, some x ∈ b' → x ∈ t.attached
  | [], id, b, hid, hb => by
    intro b' hb'
    rw [List.mem_singleton.mp hb']
    exact hb
  | c :: cs, id, b, hid, hb => by
    intro b' hb'
    rw [Condition.solutionsAll] at hb'
    obtain ⟨b₁, hb₁, hb'⟩ := List.mem_flatMap.mp hb'
    exact Condition.solutionsAll_attached h cs hid (c.solutions_attached h hid hb b₁ hb₁) b' hb'

theorem Condition.solutionsAny_attached (h : t.WellFormed) :
    ∀ (cs : List Condition) {id : NodeId} {b : Bindings},
    id ∈ t.attached → (∀ x, some x ∈ b → x ∈ t.attached) →
    ∀ b' ∈ Condition.solutionsAny ⟨t, Index.build t, marks⟩ cs id b,
      ∀ x, some x ∈ b' → x ∈ t.attached
  | [], _, _, _, _ => fun _ hb' => absurd hb' List.not_mem_nil
  | c :: cs, id, b, hid, hb => by
    intro b' hb'
    rw [Condition.solutionsAny] at hb'
    rcases List.mem_append.mp hb' with hb' | hb'
    · exact c.solutions_attached h hid hb b' hb'
    · exact Condition.solutionsAny_attached h cs hid hb b' hb'

end

end attached

theorem Mode.mem_of_mem_reported {mode : Mode} {seen bs : List Bindings} {b : Bindings}
    (hb : b ∈ mode.reported seen bs) : b ∈ bs := by
  have hunseen : b ∈ Bindings.unseen seen bs := by
    cases mode with
    | firstPerRoot => exact List.mem_of_mem_take hb
    | allBindings => exact hb
  exact (List.mem_filter.mp (List.mem_eraseDups.mp hunseen)).1

namespace Pattern

section search

variable {t : Tree} {p : Pattern} {m : Match}

/-- A match is a solution at an attached node. -/
theorem solution_of_mem_search (h : t.WellFormed) {mode : Mode} (hm : m ∈ p.search mode t) :
    m.root ∈ t.attached ∧ m.bindings ∈ p.solutionsAt t m.root ∧ m.names = p.names := by
  rw [p.search_eq_flatMap h] at hm
  obtain ⟨root, hroot, hm⟩ := List.mem_flatMap.mp hm
  obtain ⟨b, hb, rfl⟩ := List.mem_map.mp hm
  exact ⟨hroot, Mode.mem_of_mem_reported hb, rfl⟩

/-- A search for all bindings reports all of these. -/
theorem mem_search_iff (h : t.WellFormed) :
    m ∈ p.search .allBindings t ↔
      m.root ∈ t.attached ∧ m.bindings ∈ p.solutionsAt t m.root ∧ m.names = p.names := by
  refine ⟨solution_of_mem_search h, ?_⟩
  obtain ⟨root, b, names⟩ := m
  rintro ⟨hroot, hb, rfl⟩
  rw [p.search_eq_flatMap h]
  refine List.mem_flatMap.mpr ⟨root, hroot, List.mem_map.mpr ⟨b, ?_, rfl⟩⟩
  show b ∈ Bindings.unseen [] (p.solutionsAt t root)
  rw [Bindings.unseen_nil]
  exact List.mem_eraseDups.mpr hb

/-- **A match binds variables to attached nodes only.** -/
theorem search_attached (h : t.WellFormed) {mode : Mode} (hm : m ∈ p.search mode t) {v : VarId}
    {x : NodeId} (hx : m.bindings.node? v = some x) : x ∈ t.attached := by
  obtain ⟨hroot, hsolution, _⟩ := solution_of_mem_search h hm
  refine p.root.solutions_attached h hroot (fun x hx => ?_) m.bindings hsolution x ?_
  · exact absurd (List.eq_of_mem_replicate hx) (by simp)
  · exact List.mem_of_getElem? (Option.join_eq_some_iff.mp hx)

end search

end Pattern

/-! ## Patterns that were read -/

namespace Pattern

open PatternReader

variable {source : String} {marks : Marks} {p : Pattern}

theorem names_nodup (h : Pattern.parse source marks = .ok p) : p.names.Nodup := by
  unfold Pattern.parse at h
  dsimp only at h
  split at h
  · exact absurd h (by simp)
  · split at h
    · obtain ⟨root, _, h⟩ := bind_eq_ok.mp h
      split at h
      · exact absurd h (by simp [throw, throwThe, MonadExceptOf.throw])
      · obtain rfl := Except.ok.inj h
        exact nodup_eraseDups _
    · exact absurd h (by simp [Source.incomplete])

/-- A name that is mentioned outside negations is visible, unless the mention is at fault. -/
theorem isVisible_of_mention {s : Source} {ms : List Mention} {m : Mention}
    (hfault : firstFault s ms = none) (hm : m ∈ ms) (hnegated : m.negated = false) :
    isVisible ms m.name = true := by
  by_cases hcaptures : m.captures = true
  · refine List.any_eq_true.mpr ⟨m, hm, ?_⟩
    rw [hcaptures, hnegated, beq_self_eq_true]
    rfl
  · have hnone := List.findSome?_eq_none_iff.mp hfault m hm
    rw [Option.map_eq_none_iff, referenceFault, if_neg hcaptures] at hnone
    split at hnone
    · exact absurd hnone (by simp)
    · split at hnone
      · exact absurd hnone (by simp)
      · rename_i hvisible
        rw [hnegated, Bool.not_false, Bool.true_and, Bool.not_eq_true,
          Bool.not_eq_false'] at hvisible
        exact hvisible

/-- **Every occurrence of a variable is one of a name**, and outside negations of one that a match
can bind. -/
theorem parse_occurrences (h : Pattern.parse source marks = .ok p) {o : Occurrence}
    (ho : o ∈ p.root.occurrences false) :
    ∃ name, p.names[o.var]? = some name ∧ (o.negated = false → name ∈ p.captureNames) := by
  unfold Pattern.parse at h
  dsimp only at h
  split at h
  · exact absurd h (by simp)
  · rename_i parsed hparsed
    obtain ⟨hrule, hfits⟩ := Grammar.parse_fits hparsed
    split at h
    · rename_i node rest hparts
      obtain ⟨root, hroot, h⟩ := bind_eq_ok.mp h
      split at h
      · exact absurd h (by simp [throw, throwThe, MonadExceptOf.throw])
      · rename_i hfault
        obtain rfl := Except.ok.inj h
        obtain ⟨rule, i, cs, ps⟩ := parsed
        obtain rfl : rule = .pattern := hrule
        obtain rfl : ps = node :: rest := hparts
        have hnode := (fits_parts hfits).2 node (List.mem_cons_self ..)
        have hmentioned := (mentioned_of_fits hnode).nodePattern root hroot false
        obtain ⟨m, hm, rfl⟩ :=
          Mentioned.of_part (r := .pattern) (i := i) rfl (List.mem_cons_self ..)
            hmentioned o ho
        have hname : m.name ∈ ((mentions false (.node .pattern i cs (node :: rest))).map
            (·.name)).eraseDups :=
          List.mem_eraseDups.mpr (List.mem_map_of_mem hm)
        refine ⟨m.name, ?_, fun hnegated => ?_⟩
        · exact List.getElem?_idxOf hname
        · exact (mem_captureNames_iff rfl).mpr ⟨hname, isVisible_of_mention hfault hm hnegated⟩
    · exact absurd h (by simp [Source.incomplete])

theorem getElem?_of_idxOf? {names : List String} {name : String} {v : VarId}
    (h : names.idxOf? name = some v) : names[v]? = some name := by
  obtain ⟨hv, hname, _⟩ := List.idxOf?_eq_some_iff.mp h
  exact List.getElem?_eq_some_iff.mpr ⟨hv, hname⟩

/-- The names that a match can bind are those that capture a node outside negations. -/
theorem mem_captureNames_iff_exposed (h : Pattern.parse source marks = .ok p) (name : String) :
    name ∈ p.captureNames ↔ ∃ v ∈ p.root.exposed, p.names[v]? = some name := by
  constructor
  · intro hname
    obtain ⟨v, hv, hindex⟩ := parse_exposed h hname
    exact ⟨v, hv, getElem?_of_idxOf? hindex⟩
  · rintro ⟨v, hv, hname⟩
    obtain ⟨name', hname', hcaptured⟩ := parse_occurrences h (p.root.mem_exposed_iff.mp hv)
    rw [Option.some.inj (hname.symm.trans hname')]
    exact hcaptured rfl

/-- **A match binds only names that are captured outside negations**, whatever is done to the tree
while matches are reported. -/
theorem Reports.binds_only (h : Pattern.parse source marks = .ok p) {m : Match} (hm : p.Reports m)
    {v : VarId} (hv : (m.bindings.node? v).isSome = true) :
    ∃ name ∈ p.captureNames, p.names[v]? = some name := by
  obtain ⟨e, t, he, hm⟩ := hm
  let P : VarId → Prop := fun v => ∃ name ∈ p.captureNames, p.names[v]? = some name
  have hP : ∀ x y, Branch.Step x y → x.BindsOnly P → y.BindsOnly P := fun _ _ hxy hx => hx.step hxy
  have hstart : ∀ root, Branch.BindsOnly P ([.fits root p.root], .unbound p.names.length) := by
    intro root
    refine ⟨fun w hw => ?_, fun g hg o ho hnegated => ?_⟩
    · obtain ⟨x, hx⟩ := Option.isSome_iff_exists.mp hw
      have hmem := List.mem_of_getElem? (Option.join_eq_some_iff.mp hx)
      exact absurd (List.eq_of_mem_replicate hmem) (by simp)
    · rw [List.mem_singleton.mp hg] at ho
      obtain ⟨name, hname, hcaptured⟩ := parse_occurrences h ho
      exact ⟨name, hcaptured hnegated, hname⟩
  exact ((Enumeration.next_kept hP hstart (he.kept hP hstart)).1 m hm).bindings.bound v hv

/-- Where a pattern has neither disjunctions nor optional conditions, a match binds every name that
it can bind. -/
theorem node?_of_isPlain (h : Pattern.parse source marks = .ok p) (hplain : p.root.isPlain = true)
    {m : Match} (hm : p.Reports m) {name : String} (hname : name ∈ p.captureNames) :
    ∃ v x, m.node? name = some x ∧ m.bindings.node? v = some x := by
  obtain ⟨v, hv, hindex⟩ := parse_exposed h hname
  obtain ⟨hnames, hbound⟩ := hm.bound
  have hlt : v < p.names.length :=
    (List.getElem?_eq_some_iff.mp (getElem?_of_idxOf? hindex)).1
  rw [← NodePattern.alwaysBound_of_isPlain hplain] at hv
  obtain ⟨x, hx⟩ := Option.isSome_iff_exists.mp (hbound v hv hlt)
  refine ⟨v, x, ?_, hx⟩
  rw [Match.node?, hnames, hindex]
  exact hx

/-- **What a pattern that was read can bind, and what it does bind.** Its names are distinct, and
those that a match can bind are the ones captured outside negations. Every variable in it, in
chains and below negations too, has a place in the bindings of every machine that a search comes to.
A match binds no other variables than those of names that it can bind; if the pattern has neither
disjunctions of relations nor optional conditions, it binds all of them, to attached nodes. -/
theorem parse_binds (h : Pattern.parse source marks = .ok p) :
    p.names.Nodup ∧
    (∀ name, name ∈ p.captureNames ↔ ∃ v ∈ p.root.exposed, p.names[v]? = some name) ∧
    (∀ v ∈ p.root.variables, v < p.names.length) ∧
    (∀ m, Machine.Reached p.root p.names.length m → ∀ x ∈ m.branches,
      x.2.length = p.names.length ∧ ∀ g ∈ x.1, ∀ o ∈ g.occurrences, o.var < x.2.length) ∧
    ∀ t mode, ∀ m ∈ p.search mode t,
      (∀ v, (m.bindings.node? v).isSome = true →
        ∃ name ∈ p.captureNames, p.names[v]? = some name) ∧
      (p.root.isPlain = true → t.WellFormed →
        ∀ name ∈ p.captureNames, ∃ id ∈ t.attached, m.node? name = some id) := by
  have hlt : ∀ o ∈ p.root.occurrences false, o.var < p.names.length := by
    intro o ho
    obtain ⟨name, hname, _⟩ := parse_occurrences h ho
    exact (List.getElem?_eq_some_iff.mp hname).1
  refine ⟨names_nodup h, mem_captureNames_iff_exposed h, ?_, ?_, ?_⟩
  · intro v hv
    obtain ⟨o, ho, rfl⟩ := List.mem_map.mp hv
    exact hlt o ho
  · intro m hm x hx
    obtain ⟨hlength, hgoals⟩ := hm.inRange hlt x hx
    exact ⟨hlength, fun g hg o ho => hlength.symm ▸ hgoals g hg o ho⟩
  · intro t mode m hm
    have hreports : p.Reports m := reports_of_mem_search hm
    refine ⟨fun v hv => hreports.binds_only h hv, fun hplain ht name hname => ?_⟩
    obtain ⟨v, x, hx, hv⟩ := node?_of_isPlain h hplain hreports hname
    exact ⟨x, search_attached ht hm hv, hx⟩

/-- In `(A (B x))` a match binds `a` and `b`; `c` and `d` are captured in negations only, `d` in a
double one, and stay unbound. The middle of the chain refers to `a`. -/
theorem parse_binds_of_negations :
    let t := Tree.ofConstituent (some (.node "A" [.node "B" [.node "x" []]]))
    let m : Match := ⟨0, [some 0, some 1, none, none], ["a", "b", "c", "d"]⟩
    t.WellFormed ∧ ∃ p, Pattern.parse "A=a <+(!~a) B=b !< (C=c !< D=d)" .standard = .ok p ∧
      p.captureNames = ["a", "b"] ∧ p.root.isPlain = true ∧ m ∈ p.search .allBindings t ∧
      p.root.variables = [0, 0, 1, 2, 3] ∧ (∀ v ∈ p.root.variables, v < p.names.length) ∧
      ∀ name ∈ p.captureNames, ∃ id ∈ t.attached, m.node? name = some id := by
  intro t m
  let found (p : Pattern) : Bool :=
    p.captureNames = ["a", "b"] && p.root.isPlain && p.root.variables = [0, 0, 1, 2, 3] &&
      (t.attached.flatMap ((Enumeration.start p .allBindings t).matchesAt t)).contains m
  have hread : ((Pattern.parse "A=a <+(!~a) B=b !< (C=c !< D=d)" .standard).toOption.any found)
      = true := by
    decide +kernel
  obtain ⟨p, hp, hfound⟩ := exists_of_any hread
  simp only [found, Bool.and_eq_true, decide_eq_true_eq, List.contains_iff_mem] at hfound
  obtain ⟨⟨⟨hnames, hplain⟩, hvariables⟩, hmem⟩ := hfound
  have ht : t.WellFormed := Tree.wellFormed_ofConstituent _
  have hm : m ∈ p.search .allBindings t := p.search_eq_flatMap ht _ ▸ hmem
  obtain ⟨_, _, hlt, _, hmatches⟩ := parse_binds hp
  exact ⟨ht, p, hp, hnames, hplain, hm, hvariables, hlt, (hmatches t _ m hm).2 hplain ht⟩

end Pattern

end Constituency
