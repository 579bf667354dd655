import Constituency.Proofs.Renumbering.Changes
import Constituency.Proofs.Renumbering.Search
import Constituency.Proofs.Surgery.Steps
import Constituency.Surgery.Process

/-!
# Surgery on renumbered arenas

The steps of an application resolve names, ask questions of the tree, make copies and trees from
templates, and edit. Two applications that have come equally far in corresponding trees stay so with
every step: a name has corresponding nodes in both, and what is made on the way gets corresponding
numbers without the correspondence being extended.

A report says nothing of numbers, so both runs of an operation give the same reports. For the same
reason a whole process does the same to both trees (`Rule.runFrom_renumber`): it goes on with
corresponding matches, and starts anew at the same times.
-/

namespace Constituency

open Constituency.Tree

variable {f : NodeId → NodeId} {k : Nat}

/-! ## Names -/

/-- Two applications of a script that have come equally far in corresponding trees. -/
structure Surgery.Twins (f : NodeId → NodeId) (k : Nat) (s s' : Surgery) : Prop where
  tree : s.tree.Twins f k s'.tree
  matched : s'.matched = s.matched.renumber f
  created : s'.created = s.created.map (Prod.map id f)

namespace Surgery.Twins

variable {s s' : Surgery}

theorem withTree (h : s.Twins f k s') {t u : Tree} (htrees : t.Twins f k u) :
    Surgery.Twins f k { s with tree := t } { s' with tree := u } :=
  ⟨htrees, h.matched, h.created⟩

theorem node? (h : s.Twins f k s') (name : String) : s'.node? name = (s.node? name).map f := by
  have hmatched : s'.matched.node? name = (s.matched.node? name).map f := by
    rw [h.matched]
    unfold Match.node? Match.renumber
    cases s.matched.names.idxOf? name with
    | none => rfl
    | some v => exact s.matched.bindings.node?_renumber f v
  have hcreated : s'.created.lookup name = (s.created.lookup name).map f := by
    rw [h.created]
    exact lookup_map_snd f s.created name
  rw [Surgery.node?, Surgery.node?, hcreated, hmatched, Option.map_or]

theorem fetch (h : s.Twins f k s') (name : String) : s'.fetch name = (s.fetch name).map f := by
  unfold Surgery.fetch
  rw [h.node?]
  cases s.node? name with
  | none => rfl
  | some n =>
    dsimp only [Option.map_some]
    rw [h.tree.contains]
    split <;> rfl

theorem fetchConstituent (h : s.Twins f k s') : s'.fetchConstituent = s.fetchConstituent := by
  funext name
  unfold Surgery.fetchConstituent
  rw [h.fetch]
  cases s.fetch name with
  | error o => rfl
  | ok n => exact congrArg Except.ok (h.tree.constituent n)

theorem expand (h : s.Twins f k s') (m : Regex.Found) (parts : List ReplacementPart) :
    s'.expand m parts = s.expand m parts := by
  induction parts with
  | nil => rfl
  | cons part parts ih =>
    cases part with
    | text cs => rw [Surgery.expand, Surgery.expand, ih]
    | group n => rw [Surgery.expand, Surgery.expand, ih]
    | label name =>
      rw [Surgery.expand, Surgery.expand, ih, h.fetch]
      cases s.fetch (String.ofList name) with
      | error o => rfl
      | ok n =>
        show (do let rest ← s.expand m parts; return (s'.tree.label (f n)).toList ++ rest) =
          (do let rest ← s.expand m parts; return (s.tree.label n).toList ++ rest :
            Except Obstacle (List Char))
        rw [h.tree.label]

theorem relabelled (h : s.Twins f k s') (name : String) (n : NodeId) (how : Relabelling) :
    s'.relabelled name (f n) how = s.relabelled name n how := by
  cases how with
  | literal l => rfl
  | matching r parts =>
    unfold Surgery.relabelled
    rw [h.tree.label]
    dsimp only
    split
    · rfl
    · rw [h.expand]

theorem rename (h : s.Twins f k s') (discarded substitute : NodeId) :
    Surgery.Twins f k (s.rename discarded substitute) (s'.rename (f discarded) (f substitute)) := by
  refine ⟨h.tree, h.matched, ?_⟩
  unfold Surgery.rename
  rw [h.created, List.map_map, List.map_map]
  refine List.map_congr_left fun entry _ => ?_
  show (entry.1, if f entry.2 == f discarded then f substitute else f entry.2) =
    (entry.1, f (if entry.2 == discarded then substitute else entry.2))
  rw [h.tree.injective.beq_eq, apply_ite f]

end Surgery.Twins

/-! ## Steps -/

namespace Step

variable {s s' : Surgery} {α β : Type} {φ : α → β}

theorem fetch_renumber (h : s.Twins f k s') (name : String) :
    Corresponds (Surgery.Twins f k) f (fetch name) (fetch name) s s' :=
  Corresponds.get_bind (.of_ofExcept (h.fetch name) h)

theorem ask_renumber (h : s.Twins f k s') {question : Tree → Except Refusal α}
    {question' : Tree → Except Refusal β}
    (hquestion : question' s'.tree = (question s.tree).map φ) :
    Corresponds (Surgery.Twins f k) φ (ask question) (ask question') s s' := by
  refine Corresponds.get_bind (.of_ofExcept ?_ h)
  rw [hquestion]
  cases question s.tree <;> rfl

theorem require_renumber (h : s.Twins f k s') (reason : Refusal) {p q : Tree → Bool}
    (hpq : q s'.tree = p s.tree) :
    Corresponds (Surgery.Twins f k) id (require reason p) (require reason q) s s' := by
  refine ask_renumber h ?_
  rw [hpq]
  split <;> rfl

theorem require_attached (h : s.Twins f k s') (reason : Refusal) (n : NodeId) :
    Corresponds (Surgery.Twins f k) id (require reason (·.isAttached n))
      (require reason (·.isAttached (f n))) s s' :=
  require_renumber h reason (h.tree.isAttached n)

theorem edit_renumber (h : s.Twins f k s') {change : Edit α} {change' : Edit β}
    (hchange : Corresponds (Tree.Twins f k) φ change change' s.tree s'.tree) :
    Corresponds (Surgery.Twins f k) φ (edit change) (edit change') s s' := by
  obtain ⟨hvalue, htrees⟩ := hchange
  refine Corresponds.get_bind ?_
  rcases hrun : change.run.run s.tree with ⟨r, t⟩
  rcases hrun' : change'.run.run s'.tree with ⟨r', u⟩
  rw [hrun, hrun'] at hvalue htrees
  refine Corresponds.set_bind (.of_ofExcept ?_ (h.withTree htrees))
  dsimp only at hvalue
  subst hvalue
  cases r <;> rfl

theorem graft_renumber (h : s.Twins f k s') (c : Constituent) :
    Corresponds (Surgery.Twins f k) f (graft c) (graft c) s s' :=
  ⟨congrArg Except.ok (h.tree.snd_graft c),
    h.withTree ⟨h.tree.graft c, h.tree.source.graft c, h.tree.target.graft c⟩⟩

/-- What follows a graft in corresponding trees, for the numbers that it gives to its nodes. -/
theorem graft_bind {c : Constituent} {g : NodeId → Step α} {g' : NodeId → Step β}
    (h : s.Twins f k s')
    (hg : ∀ base base' : NodeId, (∀ i, f (base + i) = base' + i) → ∀ u u', Surgery.Twins f k u u' →
      Corresponds (Surgery.Twins f k) φ (g base) (g' base') u u') :
    Corresponds (Surgery.Twins f k) φ (graft c >>= g) (graft c >>= g') s s' :=
  hg s.tree.nodes.size s'.tree.nodes.size h.tree.fresh _ _ (graft_renumber h c).2

theorem zipIdx_renumber {base base' : NodeId} (hf : ∀ i, f (base + i) = base' + i) (as : List α) :
    as.zipIdx base' = (as.zipIdx base).map (Prod.map id f) := by
  induction as generalizing base base' with
  | nil => rfl
  | cons a as ih =>
    have hnext : ∀ i, f (base + 1 + i) = base' + 1 + i := fun i => by
      rw [Nat.add_assoc, hf, Nat.add_assoc]
    rw [List.zipIdx_cons, List.zipIdx_cons, List.map_cons, ih hnext]
    congr 1
    exact Prod.ext rfl (hf 0).symm

/-- **Corresponding trees are made from a template**, and their nodes get the same names. -/
theorem instantiate_renumber (h : s.Twins f k s') (template : Template) :
    Corresponds (Surgery.Twins f k) (Prod.map f (Option.map f)) (instantiate template)
      (instantiate template) s s' := by
  unfold instantiate
  cases template.tree with
  | none => exact .of_throw h
  | some slots =>
    refine Corresponds.get_bind ?_
    rw [h.fetchConstituent]
    refine Corresponds.bind (.of_ofExcept_same h) fun filled u u' hu => ?_
    refine graft_bind hu fun base base' hf v v' hv => ?_
    -- the nodes made are the consecutive numbers from `base` on, and so they correspond
    dsimp only [id]
    rw [zipIdx_renumber hf filled.preorder, List.filterMap_map, List.find?_map]
    refine Corresponds.bind (.of_modify ⟨hv.tree, hv.matched, ?_⟩) fun _ w w' hw => ?_
    · dsimp only
      rw [hv.created, List.map_append, List.map_filterMap]
      congr 2
      funext entry
      show ((entry.1.2.bind Slot.declared?).map (·, f entry.2)) =
        ((entry.1.2.bind Slot.declared?).map (·, entry.2)).map (Prod.map id f)
      rw [Option.map_map]
      rfl
    · -- the root comes first, and the foot is the same one of them
      refine .of_pure ?_ hw
      have hroot : base' = f base := (hf 0).symm
      rw [hroot, Option.map_map]
      show (f base, _) = (f base, _)
      rw [Option.map_map]
      rfl

theorem instantiateWithFoot_renumber (h : s.Twins f k s') (template : Template) :
    Corresponds (Surgery.Twins f k) (Prod.map f f) (instantiateWithFoot template)
      (instantiateWithFoot template) s s' := by
  refine (instantiate_renumber h template).bind fun made u u' hu => ?_
  obtain ⟨root, _ | foot⟩ := made
  · exact .of_throw hu
  · exact .of_pure rfl hu

theorem make_renumber (h : s.Twins f k s') (o : Operand) :
    Corresponds (Surgery.Twins f k) f (make o) (make o) s s' := by
  cases o with
  | copyOf name =>
    refine Corresponds.get_bind ?_
    rw [h.fetchConstituent]
    exact Corresponds.bind (.of_ofExcept_same h) fun c u u' hu => graft_renumber hu c
  | made template =>
    exact (instantiate_renumber h template).bind fun _ _ _ hu => .of_pure rfl hu

theorem makeAll_renumber (os : List Operand) (h : s.Twins f k s') :
    Corresponds (Surgery.Twins f k) (List.map f) (makeAll os) (makeAll os) s s' := by
  induction os generalizing s s' with
  | nil => exact .of_pure rfl h
  | cons o os ih =>
    refine (make_renumber h o).bind fun n u u' hu => ?_
    exact (ih hu).bind fun ns v v' hv => .of_pure rfl hv

theorem adjoin_renumber (h : s.Twins f k s') (mode : AdjunctionMode) (template : Template)
    (target : NodeId) :
    Corresponds (Surgery.Twins f k) id (adjoin mode template target)
      (adjoin mode template (f target)) s s' := by
  refine (require_attached h .targetNotAttached target).bind fun _ u u' hu => ?_
  refine (instantiateWithFoot_renumber hu template).bind fun made v v' hv => ?_
  obtain ⟨root, foot⟩ := made
  refine (edit_renumber hv (Edit.adjoin_renumber hv.tree target root foot mode)).bind
    fun _ w w' hw => ?_
  cases mode with
  | root => exact .of_pure rfl hw
  | head => exact .of_modify (hw.rename root target)
  | foot => exact .of_modify (hw.rename foot target)

theorem enclose_renumber (h : s.Twins f k s') (template : Template) (first : NodeId)
    (last : Option NodeId) :
    Corresponds (Surgery.Twins f k) id (enclose template first last)
      (enclose template (f first) (last.map f)) s s' := by
  have hlast : (last.map f).filter (· != f first) = (last.filter (· != first)).map f := by
    have hne : ((· != f first) ∘ f) = (· != first) :=
      funext fun n => congrArg (!·) h.tree.injective.beq_eq
    rw [Option.filter_map, hne]
  refine (require_attached h .nodeNotAttached first).bind fun _ u u' hu => ?_
  rw [hlast]
  cases last.filter (· != first) with
  | none =>
    refine (instantiateWithFoot_renumber hu template).bind fun made v v' hv => ?_
    exact edit_renumber hv (Edit.encloseNode_renumber hv.tree first made.1 made.2)
  | some last =>
    refine (ask_renumber hu (hu.tree.sistersBetween first last)).bind fun span v v' hv => ?_
    refine (instantiateWithFoot_renumber hv template).bind fun made w w' hw => ?_
    exact edit_renumber hw (Edit.encloseSisters_renumber hw.tree span.parent made.1 made.2
      span.first span.last)

end Step

/-! ## Operations and scripts -/

namespace Surgery

variable {s s' : Surgery}

theorem attempt_renumber (keyword : String) {step step' : Step Unit}
    (hstep : Corresponds (Surgery.Twins f k) id step step' s s') :
    Surgery.Twins f k (s.attempt keyword step).1 (s'.attempt keyword step').1 ∧
      (s'.attempt keyword step').2 = (s.attempt keyword step).2 := by
  obtain ⟨hvalue, hstate⟩ := hstep
  unfold attempt
  rcases hrun : step.run.run s with ⟨r, u⟩
  rcases hrun' : step'.run.run s' with ⟨r', u'⟩
  rw [hrun, hrun'] at hvalue hstate
  dsimp only at hvalue
  subst hvalue
  cases r with
  | ok _ => exact ⟨hstate, rfl⟩
  | error o => exact ⟨hstate, rfl⟩

theorem forEach_renumber (keyword : String) {change change' : NodeId → Edit Unit}
    (hchange : ∀ {t u : Tree}, t.Twins f k u → ∀ n,
      Corresponds (Tree.Twins f k) id (change n) (change' (f n)) t u)
    (names : List String) (h : s.Twins f k s') :
    Surgery.Twins f k (forEach keyword change names s).1 (forEach keyword change' names s').1 ∧
      (forEach keyword change' names s').2 = (forEach keyword change names s).2 := by
  induction names generalizing s s' with
  | nil => exact ⟨h, rfl⟩
  | cons name names ih =>
    have hstep : Corresponds (Surgery.Twins f k) id
        (do let n ← Step.fetch name; Step.edit (change n))
        (do let n ← Step.fetch name; Step.edit (change' n)) s s' :=
      (Step.fetch_renumber h name).bind fun n _ _ h => Step.edit_renumber h (hchange h.tree n)
    obtain ⟨hfirst, hreports⟩ := attempt_renumber keyword hstep
    obtain ⟨hrest, hmore⟩ := ih hfirst
    rw [forEach, forEach]
    exact ⟨hrest, congrArg₂ (· ++ ·) hreports hmore⟩

end Surgery

namespace Operation

open Surgery

/-- **An operation does the same to corresponding trees**, and is reported in the same way. -/
theorem runAs_renumber (keyword : String) (marks : Marks) (o : Operation) {s s' : Surgery}
    (h : s.Twins f k s') :
    Surgery.Twins f k (o.runAs keyword marks s).1 (o.runAs keyword marks s').1 ∧
      (o.runAs keyword marks s').2 = (o.runAs keyword marks s).2 := by
  induction o with
  | delete names => exact forEach_renumber keyword Edit.detach_renumber names h
  | prune names => exact forEach_renumber keyword Edit.prune_renumber names h
  | coindex names =>
    rw [runAs, runAs, h.tree.maxCoindex]
    exact forEach_renumber keyword (Edit.coindex_renumber _) names h
  | ifExists name negated guarded ih =>
    rw [runAs, runAs, h.node?, Option.isSome_map]
    split
    · exact ih
    · exact ⟨h, rfl⟩
  | excise top bottom =>
    refine attempt_renumber keyword ?_
    refine (Step.fetch_renumber h top).bind fun top _ _ h => ?_
    refine (Step.fetch_renumber h bottom).bind fun bottom _ _ h => ?_
    exact Step.edit_renumber h (Edit.excise_renumber h.tree top bottom)
  | relabel name how =>
    refine attempt_renumber keyword ?_
    refine (Step.fetch_renumber h name).bind fun n s s' h => ?_
    refine Corresponds.get_bind ?_
    rw [h.relabelled]
    refine Corresponds.bind (.of_ofExcept_same h) fun l _ _ h => ?_
    exact Step.edit_renumber h (Edit.relabel_renumber h.tree n l)
  | insert operand place =>
    refine attempt_renumber keyword ?_
    refine (Step.fetch_renumber h place.anchor).bind fun anchor _ _ h => ?_
    refine (Step.ask_renumber h (h.tree.locate place anchor none)).bind fun spot _ _ h => ?_
    refine (Step.make_renumber h operand).bind fun n _ _ h => ?_
    exact Step.edit_renumber h (Edit.insert_renumber h.tree spot.1 spot.2 n)
  | move name place =>
    refine attempt_renumber keyword ?_
    refine (Step.fetch_renumber h name).bind fun n _ _ h => ?_
    refine (Step.fetch_renumber h place.anchor).bind fun anchor s s' h => ?_
    have hfree : s'.tree.checkMove (f n) (f anchor) = (s.tree.checkMove n anchor).map id := by
      rw [h.tree.checkMove]
      cases s.tree.checkMove n anchor <;> rfl
    refine (Step.ask_renumber h hfree).bind fun _ _ _ h => ?_
    refine (Step.ask_renumber h (h.tree.locate place anchor (some n))).bind fun spot _ _ h => ?_
    exact Step.edit_renumber h (Edit.move_renumber h.tree n spot.1 spot.2)
  | replace name operands =>
    refine attempt_renumber keyword ?_
    refine (Step.fetch_renumber h name).bind fun n _ _ h => ?_
    refine (Step.require_attached h .nodeNotAttached n).bind fun _ _ _ h => ?_
    refine (Step.makeAll_renumber operands h).bind fun made _ _ h => ?_
    exact Step.edit_renumber h (Edit.putInPlace_renumber h.tree n made)
  | adjoin mode template target =>
    refine attempt_renumber keyword ?_
    refine (Step.fetch_renumber h target).bind fun target _ _ h => ?_
    exact Step.adjoin_renumber h mode template target
  | createSubtree template first last =>
    refine attempt_renumber keyword ?_
    refine (Step.fetch_renumber h first).bind fun first s s' h => ?_
    have hlast : Corresponds (Surgery.Twins f k) (Option.map f) (last.mapM Step.fetch)
        (last.mapM Step.fetch) s s' := by
      cases last with
      | none => exact .of_pure rfl h
      | some name =>
        exact (Step.fetch_renumber h name).bind fun n _ _ h => .of_pure rfl h
    exact hlast.bind fun last _ _ h => Step.enclose_renumber h template first last

theorem runAll_renumber (marks : Marks) (os : List Operation) {s s' : Surgery}
    (h : s.Twins f k s') :
    Surgery.Twins f k (runAll marks os s).1 (runAll marks os s').1 ∧
      (runAll marks os s').2 = (runAll marks os s).2 := by
  induction os generalizing s s' with
  | nil => exact ⟨h, rfl⟩
  | cons o os ih =>
    obtain ⟨hfirst, hreports⟩ := runAs_renumber o.keyword marks o h
    obtain ⟨hrest, hmore⟩ := ih hfirst
    rw [runAll, runAll]
    exact ⟨hrest, congrArg₂ (· ++ ·) hreports hmore⟩

end Operation

variable {t u : Tree}

/-- **A script does the same to corresponding trees**, applied to corresponding matches. -/
theorem Script.apply_renumber (s : Script) (h : t.Twins f k u) (m : Match) :
    (s.apply t m).tree.Twins f k (s.apply u (m.renumber f)).tree ∧
      (s.apply u (m.renumber f)).diagnostics = (s.apply t m).diagnostics ∧
      (s.apply u (m.renumber f)).restructured = (s.apply t m).restructured := by
  have hstart : Surgery.Twins f k ⟨t, m, []⟩ ⟨u, m.renumber f, []⟩ := ⟨h, rfl, rfl⟩
  obtain ⟨hend, hreports⟩ := Operation.runAll_renumber s.marks s.operations hstart
  refine ⟨hend.tree, hreports, ?_⟩
  show ((Operation.runAll s.marks s.operations ⟨u, m.renumber f, []⟩).1.tree.revision !=
    u.revision) = ((Operation.runAll s.marks s.operations ⟨t, m, []⟩).1.tree.revision != t.revision)
  rw [hend.tree.revision, h.revision, Bool.eq_iff_iff, bne_iff_ne, bne_iff_ne]
  exact not_congr Nat.add_right_cancel_iff

/-! ## Processes -/

namespace Rule

/-- The enumeration that a rule goes on with when its script has been applied. -/
def resumed (r : Rule) (e : Enumeration) (o : Outcome) : Enumeration :=
  if o.restructured then .start r.pattern .allBindings o.tree else e

/-- It goes on with corresponding enumerations, or searches both new trees. -/
theorem resumed_renumber (r : Rule) {e : Enumeration} {i : Index} {o o' : Outcome}
    (htrees : o.tree.Twins f k o'.tree) (ho : o'.restructured = o.restructured)
    (hi : e.index.Renumbered f i) :
    ∃ j, (r.resumed e o).index.Renumbered f j ∧
      r.resumed (e.renumber f k i) o' = (r.resumed e o).renumber f k j := by
  unfold resumed
  rw [ho]
  split
  · exact ⟨_, htrees.build, Enumeration.start_renumber htrees ..⟩
  · exact ⟨i, hi, rfl⟩

/-- **A rule does the same to corresponding trees**, and reports the same. -/
theorem runFrom_renumber (r : Rule) (limit : Nat) {e : Enumeration} {i : Index}
    (h : t.Twins f k u) (hi : e.index.Renumbered f i) :
    (r.runFrom limit e t).1.Twins f k (r.runFrom limit (e.renumber f k i) u).1 ∧
      (r.runFrom limit (e.renumber f k i) u).2 = (r.runFrom limit e t).2 := by
  induction limit generalizing e i t u with
  | zero =>
    unfold runFrom
    rw [h.isEmpty, Enumeration.next_renumber h hi]
    split
    · exact ⟨h, rfl⟩
    · rcases e.next t with ⟨_ | m, e'⟩
      · exact ⟨h, rfl⟩
      · exact ⟨h, rfl⟩
  | succ limit ih =>
    unfold runFrom
    rw [h.isEmpty, Enumeration.next_renumber h hi]
    split
    · exact ⟨h, rfl⟩
    · rcases hnext : e.next t with ⟨_ | m, e'⟩
      · exact ⟨h, rfl⟩
      · -- one application, and then the induction hypothesis for the trees that it leaves behind
        obtain ⟨htrees, hreports, hrestructured⟩ := r.script.apply_renumber h m
        have hkept : e'.index.Renumbered f i := (Enumeration.alike_of_next hnext).index ▸ hi
        obtain ⟨j, hj, hresumed⟩ := r.resumed_renumber htrees hrestructured hkept
        have hrest := ih htrees hj
        rw [← hresumed] at hrest
        have hfirst := congrArg (Report.mk 1 · false) hreports
        exact ⟨hrest.1, congrArg₂ (· ++ ·) hfirst hrest.2⟩

theorem run_renumber (r : Rule) (limit : Nat) (h : t.Twins f k u) :
    (r.run limit t).1.Twins f k (r.run limit u).1 ∧ (r.run limit u).2 = (r.run limit t).2 := by
  rw [run, run, Enumeration.start_renumber h]
  exact r.runFrom_renumber limit h h.build

/-- **Rules, run one after the other, do the same to corresponding trees.** -/
theorem runAll_renumber (limit : Nat) (rs : List Rule) (h : t.Twins f k u) :
    (runAll limit rs t).1.Twins f k (runAll limit rs u).1 ∧
      (runAll limit rs u).2 = (runAll limit rs t).2 := by
  induction rs generalizing t u with
  | nil => exact ⟨h, rfl⟩
  | cons r rs ih =>
    obtain ⟨hfirst, hreport⟩ := r.run_renumber limit h
    obtain ⟨hrest, hmore⟩ := ih hfirst
    rw [runAll, runAll]
    exact ⟨hrest, congrArg₂ (· ++ ·) hreport hmore⟩

end Rule

end Constituency
