import Constituency.Proofs.Surgery.Steps

/-!
# What a run of operations can come to

Every operation is an attempt at one step, or at several of them for several
names. From what a step can do follows what a run can come to (`Ran`): known
requests, and reports none of which is of a missing node as long as the names
have their nodes. An operation that is one attempt is carried out or reported,
never both: with a report the tree has only grown.
-/

namespace Constituency

open Constituency.Tree Constituency.Surgery

/-- Whether a report is of a node that the arena does not have. -/
def Diagnostic.isFault : Diagnostic → Bool
  | .skipped _ .unknownNode => true
  | _ => false

namespace Tree

variable {t : Tree}

/-! ## What the tree is asked -/

theorem sisterIndex_known (h : t.WellFormed) {id : NodeId} {moving : Option NodeId}
    {place : NodeId × Nat} (hplace : t.sisterIndex id moving = .ok place) :
    place.1 < t.nodes.size := by
  unfold sisterIndex at hplace
  split at hplace
  · exact absurd hplace (by simp)
  · rename_i p hp
    split at hplace
    · exact absurd hplace (by simp)
    · obtain rfl := Except.ok.inj hplace
      exact h.parent_lt_size hp

theorem sisterIndex_error {id : NodeId} {moving : Option NodeId} {e : Refusal}
    (he : t.sisterIndex id moving = .error e) : e ≠ .unknownNode := by
  unfold sisterIndex at he
  split at he
  · obtain rfl := Except.error.inj he
    simp
  · split at he
    · obtain rfl := Except.error.inj he
      simp
    · exact absurd he (by simp)

theorem locate_known (h : t.WellFormed) {place : Place} {anchor : NodeId} {moving : Option NodeId}
    {found : NodeId × Nat} (hfound : t.locate place anchor moving = .ok found) :
    found.1 < t.nodes.size := by
  unfold locate at hfound
  split at hfound
  · exact absurd hfound (by simp)
  · rename_i hattached
    cases place with
    | leftOf n => exact sisterIndex_known h hfound
    | rightOf n =>
      cases hs : t.sisterIndex anchor moving with
      | ok place =>
        have hknown := sisterIndex_known h hs
        rw [hs] at hfound
        obtain rfl := Except.ok.inj hfound
        exact hknown
      | error e =>
        rw [hs] at hfound
        exact absurd hfound (by simp [bind, Except.bind])
    | child n position =>
      dsimp only at hfound
      generalize (if position > 0 then _ else _) = index at hfound
      split at hfound
      · obtain rfl := Except.ok.inj hfound
        exact h.lt_size_of_isAttached (by simpa using hattached)
      · exact absurd hfound (by simp)

theorem locate_error {place : Place} {anchor : NodeId} {moving : Option NodeId} {e : Refusal}
    (he : t.locate place anchor moving = .error e) : e ≠ .unknownNode := by
  unfold locate at he
  split at he
  · obtain rfl := Except.error.inj he
    simp
  · cases place with
    | leftOf n => exact sisterIndex_error he
    | rightOf n =>
      rcases error_of_bind he with he | ⟨_, _, he⟩
      · exact sisterIndex_error he
      · exact absurd he (by simp [pure, Except.pure])
    | child n position =>
      dsimp only at he
      generalize (if position > 0 then _ else _) = index at he
      split at he
      · exact absurd he (by simp)
      · obtain rfl := Except.error.inj he
        simp

theorem checkMove_error {id anchor : NodeId} {e : Refusal}
    (he : t.checkMove id anchor = .error e) : e ≠ .unknownNode := by
  unfold checkMove at he
  split at he
  · obtain rfl := Except.error.inj he
    simp
  · split at he
    · obtain rfl := Except.error.inj he
      simp
    · exact absurd he (by simp)

theorem sistersBetween_known (h : t.WellFormed) {a b : NodeId} {span : SisterSpan}
    (hspan : t.sistersBetween a b = .ok span) : span.parent < t.nodes.size := by
  unfold sistersBetween at hspan
  split at hspan
  · rename_i hp _ _
    split at hspan
    · obtain rfl := Except.ok.inj hspan
      exact h.parent_lt_size hp
    · exact absurd hspan (by simp)
  · exact absurd hspan (by simp)

theorem sistersBetween_error {a b : NodeId} {e : Refusal}
    (he : t.sistersBetween a b = .error e) : e ≠ .unknownNode := by
  unfold sistersBetween at he
  split at he
  · split at he
    · exact absurd he (by simp)
    · obtain rfl := Except.error.inj he
      simp
  · obtain rfl := Except.error.inj he
    simp

end Tree

namespace Step

variable {s : Surgery}

/-- What keeps a replacement from being expanded is a name in it that has no node. -/
theorem expand_eq_error {m : Regex.Found} {o : Obstacle} : ∀ {parts : List ReplacementPart},
    s.expand m parts = .error o →
      ∃ name, .label name ∈ parts ∧ s.fetch (String.ofList name) = .error o
  | [], h => absurd h (by simp [expand])
  | part :: parts, h => by
    have hlater : ∀ {rest : List Char → Except Obstacle (List Char)},
        (∀ cs, rest cs ≠ .error o) → s.expand m parts >>= rest = .error o →
        ∃ name, .label name ∈ part :: parts ∧ s.fetch (String.ofList name) = .error o := by
      intro rest hrest h
      rcases error_of_bind h with h | ⟨cs, _, h⟩
      · obtain ⟨name, hname, hfetch⟩ := expand_eq_error h
        exact ⟨name, List.mem_cons_of_mem part hname, hfetch⟩
      · exact absurd h (hrest cs)
    cases part with
    | text cs => exact hlater (by simp [pure, Except.pure]) h
    | group n => exact hlater (by simp [pure, Except.pure]) h
    | label name =>
      rcases error_of_bind h with h | ⟨_, _, h⟩
      · exact ⟨name, List.mem_cons_self .., h⟩
      · exact hlater (by simp [pure, Except.pure]) h

/-- **What keeps a node from being relabelled**: its label does not match, or a name in the
replacement has no node. -/
theorem relabelled_eq_error {name : String} {id : NodeId} {how : Relabelling} {o : Obstacle}
    (h : s.relabelled name id how = .error o) :
    ∃ r parts, how = .matching r parts ∧ (o = .mismatch name (s.tree.label id) ∨
      ∃ asked, .label asked ∈ parts ∧ s.fetch (String.ofList asked) = .error o) := by
  cases how with
  | literal l => exact absurd h (by simp [relabelled])
  | matching r parts =>
    refine ⟨r, parts, rfl, ?_⟩
    unfold relabelled at h
    dsimp only at h
    split at h
    · exact .inl (Except.error.inj h).symm
    · rcases error_of_bind h with h | ⟨_, _, h⟩
      · exact .inr (expand_eq_error h)
      · exact absurd h (by simp [pure, Except.pure])

theorem relabelled_error {name : String} {id : NodeId} {how : Relabelling} {o : Obstacle}
    (h : s.relabelled name id how = .error o) : o.Proper s := by
  obtain ⟨_, _, -, rfl | ⟨_, -, hfetch⟩⟩ := relabelled_eq_error h
  · exact fun _ => by simp
  · exact fetch_error hfetch

/-! ## The operations, one attempt each -/

theorem isAttached_of_prepared {u : Surgery} (hu : Prepared s u) (h : s.tree.WellFormed)
    {id : NodeId} (hid : s.tree.isAttached id = true) : u.tree.isAttached id = true := by
  rwa [hu.grown.isAttached_eq h]

theorem adjoin_sound (mode : AdjunctionMode) (template : Template) {target : NodeId}
    (h : s.tree.WellFormed) : Sound (adjoin mode template target) s := by
  have hreason : Refusal.targetNotAttached ≠ .unknownNode := by simp
  refine (require_prepares hreason).sound ?_
  intro _ u _ hu
  obtain ⟨rfl, hattached⟩ := hu
  refine (instantiateWithFoot_prepares template h).sound ?_
  intro made v hv hfooted
  obtain ⟨root, foot⟩ := made
  have hwf := wellFormed_of_prepared hv h
  have hattached := isAttached_of_prepared hv h hattached
  have hedit := edit_sound hwf (Edit.adjoin_sound hwf hattached hfooted mode)
  refine Ends.bind hedit ?_ fun _ _ h => h
  -- the names of a node of the template pass to the target, a node of the arena
  intro _ w hw
  have htarget : target < w.tree.nodes.size :=
    Nat.lt_of_lt_of_le (hwf.lt_size_of_isAttached hattached) (hwf.edits hw.edits).2
  cases mode with
  | root => exact Ends.of_pure hw
  | head => exact Ends.of_modify ⟨hw.edits, fun hn => (hw.names hn).rename root htarget⟩
  | foot => exact Ends.of_modify ⟨hw.edits, fun hn => (hw.names hn).rename foot htarget⟩

theorem enclose_sound (template : Template) {first : NodeId} (last : Option NodeId)
    (h : s.tree.WellFormed) : Sound (enclose template first last) s := by
  have hreason : Refusal.nodeNotAttached ≠ .unknownNode := by simp
  refine (require_prepares hreason).sound ?_
  intro _ u _ hu
  obtain ⟨rfl, hattached⟩ := hu
  split
  · refine (instantiateWithFoot_prepares template h).sound ?_
    intro made v hv hfooted
    have hwf := wellFormed_of_prepared hv h
    have hfirst := lt_size_of_prepared hv (h.lt_size_of_isAttached hattached)
    exact edit_sound hwf (Edit.encloseNode_sound hwf hfirst hfooted.root_known hfooted.foot_known)
  · rename_i last _
    have hask : Prepares (ask (·.sistersBetween first last)) u fun span v =>
        v = u ∧ span.parent < u.tree.nodes.size :=
      ask_prepares (fun _ hspan => ⟨rfl, sistersBetween_known h hspan⟩)
        fun _ he => sistersBetween_error he
    refine hask.sound ?_
    intro span v _ hv
    obtain ⟨rfl, hspan⟩ := hv
    refine (instantiateWithFoot_prepares template h).sound ?_
    intro made w hw hfooted
    have hwf := wellFormed_of_prepared hw h
    exact edit_sound hwf (Edit.encloseSisters_sound hwf (lt_size_of_prepared hw hspan)
      hfooted.root_known hfooted.foot_known)

/-- The node of a name, and then something to be done with it. -/
theorem fetch_sound {name : String} {rest : NodeId → Step Unit}
    (hrest : ∀ id, id < s.tree.nodes.size → Sound (rest id) s) : Sound (fetch name >>= rest) s :=
  (fetch_prepares name).sound fun id u _ hu => by
    obtain ⟨rfl, hid⟩ := hu
    exact hrest id hid

/-- The place that a node stands for, and then something to be done with it. -/
theorem locate_sound {place : Place} {anchor : NodeId} {moving : Option NodeId}
    {rest : NodeId × Nat → Step Unit} (h : s.tree.WellFormed)
    (hrest : ∀ found, found.1 < s.tree.nodes.size → Sound (rest found) s) :
    Sound (ask (·.locate place anchor moving) >>= rest) s := by
  have hask : Prepares (ask (·.locate place anchor moving)) s fun found u =>
      u = s ∧ found.1 < s.tree.nodes.size :=
    ask_prepares (fun _ hfound => ⟨rfl, locate_known h hfound⟩) fun _ he => locate_error he
  refine hask.sound ?_
  intro found u _ hu
  obtain ⟨rfl, hfound⟩ := hu
  exact hrest found hfound

theorem relabel_sound (name : String) (how : Relabelling) (h : s.tree.WellFormed) :
    Sound (do
      let id ← fetch name
      let label ← ofExcept ((← get).relabelled name id how)
      edit (.relabel id label)) s := by
  refine fetch_sound fun id hid => .get_bind ?_
  have hlabel : Prepares (ofExcept (s.relabelled name id how)) s fun _ u => u = s :=
    .of_ofExcept (fun _ _ => rfl) fun _ ho => relabelled_error ho
  refine hlabel.sound ?_
  intro label u _ hu
  subst u
  exact edit_sound h (Edit.relabel_sound hid label)

theorem insert_sound (operand : Operand) (place : Place) (h : s.tree.WellFormed) :
    Sound (do
      let anchor ← fetch place.anchor
      let (parent, index) ← ask (·.locate place anchor none)
      let id ← make operand
      edit (.insert parent index id)) s := by
  refine fetch_sound fun anchor _ => locate_sound h fun found hfound => ?_
  refine (make_prepares operand h).sound ?_
  intro id u hu hid
  exact edit_sound (wellFormed_of_prepared hu h)
    (Edit.insert_sound (lt_size_of_prepared hu hfound) hid found.2)

theorem move_sound (name : String) (place : Place) (h : s.tree.WellFormed) :
    Sound (do
      let id ← fetch name
      let anchor ← fetch place.anchor
      ask (·.checkMove id anchor)
      let (parent, index) ← ask (·.locate place anchor (some id))
      edit (.move id parent index)) s := by
  refine fetch_sound fun id hid => fetch_sound fun anchor _ => ?_
  have hcheck : Prepares (ask (·.checkMove id anchor)) s fun _ u => u = s :=
    ask_prepares (fun _ _ => rfl) fun _ he => checkMove_error he
  refine hcheck.sound ?_
  intro _ u _ hu
  subst u
  exact locate_sound h fun found hfound => edit_sound h (Edit.move_sound h hid hfound found.2)

theorem replace_sound (name : String) (operands : List Operand) (h : s.tree.WellFormed) :
    Sound (do
      let id ← fetch name
      require .nodeNotAttached (·.isAttached id)
      let made ← makeAll operands
      edit (.putInPlace id made)) s := by
  have hreason : Refusal.nodeNotAttached ≠ .unknownNode := by simp
  refine fetch_sound fun id _ => (require_prepares hreason).sound fun _ u _ hu => ?_
  obtain ⟨rfl, _⟩ := hu
  refine (makeAll_prepares operands h).sound ?_
  intro made v hv hmade
  have hwf := wellFormed_of_prepared hv h
  exact edit_sound hwf (Edit.putInPlace_sound hwf hmade)

theorem createSubtree_sound (template : Template) (first : String) (last : Option String)
    (h : s.tree.WellFormed) :
    Sound (do
      let first ← fetch first
      let last ← last.mapM fetch
      enclose template first last) s := by
  refine fetch_sound fun first _ => ?_
  cases last with
  | none => exact enclose_sound template none h
  | some last =>
    have hlast : Prepares ((some last).mapM fetch) s fun _ u => u = s :=
      (fetch_prepares last).bind fun id u _ hu => .of_pure hu.1
    refine hlast.sound ?_
    intro last u _ hu
    subst u
    exact enclose_sound template last h

end Step

namespace Surgery

/-! ## Attempts and runs -/

/-- What a run can come to: known requests, and no report of a missing node. -/
structure Ran (s u : Surgery) (reports : List Diagnostic) : Prop where
  continued : Continued s u
  proper : s.NamesKnown → ∀ d ∈ reports, d.isFault = false

/-- What an attempt can come to: with a report, the tree has only grown. -/
structure Attempted (s u : Surgery) (reports : List Diagnostic) : Prop extends Ran s u reports where
  prepared : reports ≠ [] → Prepared s u

variable {s u v : Surgery}

theorem Attempted.refl (s : Surgery) : Attempted s s [] :=
  ⟨⟨(Prepared.refl s).continued, fun _ _ h => absurd h (by simp)⟩, fun _ => .refl s⟩

theorem Ran.trans {first second : List Diagnostic} (hsu : Ran s u first) (huv : Ran u v second) :
    Ran s v (first ++ second) := by
  refine ⟨hsu.continued.trans huv.continued, ?_⟩
  intro hn d hd
  rcases List.mem_append.mp hd with hd | hd
  · exact hsu.proper hn d hd
  · exact huv.proper (hsu.continued.names hn) d hd

theorem Ran.wellFormed {reports : List Diagnostic} (h : Ran s u reports)
    (hs : s.tree.WellFormed) : u.tree.WellFormed :=
  (hs.edits h.continued.edits).1

theorem isFault_report {keyword : String} {o : Obstacle} (h : o ≠ .refused .unknownNode) :
    (o.report keyword).isFault = false := by
  cases o with
  | unresolved name => rfl
  | mismatch name label => rfl
  | refused reason =>
    cases reason with
    | unknownNode => exact absurd rfl h
    | _ => rfl

/-- **An attempt at a step is a step or a report.** -/
theorem attempt_attempted (keyword : String) {step : Step Unit} (h : step.Sound s) :
    Attempted s (s.attempt keyword step).1 (s.attempt keyword step).2 := by
  rcases attempt_cases keyword h with ⟨u, hattempt, hu⟩ | ⟨o, u, hattempt, hprepared, hproper⟩
  · rw [hattempt]
    exact ⟨⟨hu, fun _ _ hd => absurd hd (by simp)⟩, fun hne => absurd rfl hne⟩
  · rw [hattempt]
    refine ⟨⟨hprepared.continued, ?_⟩, fun _ => hprepared⟩
    intro hn d hd
    obtain rfl := List.mem_singleton.mp hd
    exact isFault_report (hproper hn)

theorem forEach_ran (keyword : String) {change : NodeId → Edit Unit}
    (hchange : ∀ (t : Tree) (id : NodeId), t.WellFormed → id < t.nodes.size → (change id).Sound t)
    (names : List String) (h : s.tree.WellFormed) :
    Ran s (forEach keyword change names s).1 (forEach keyword change names s).2 := by
  induction names generalizing s with
  | nil => exact (Attempted.refl s).toRan
  | cons name names ih =>
    have hfirst := attempt_attempted keyword (Step.fetch_sound fun id hid =>
      Step.edit_sound h (hchange s.tree id h hid) : Step.Sound (do
        let id ← Step.fetch name
        Step.edit (change id)) s)
    rw [forEach]
    exact hfirst.toRan.trans (ih (hfirst.toRan.wellFormed h))

end Surgery

namespace Operation

variable {s : Surgery}

/-- Whether an operation is one attempt, and not one for each of several names. -/
def isAtomic : Operation → Bool
  | delete _ => false
  | prune _ => false
  | coindex _ => false
  | ifExists _ _ guarded => guarded.isAtomic
  | _ => true

theorem runAs_attempted (keyword : String) (marks : Marks) (o : Operation)
    (hatomic : o.isAtomic = true) (h : s.tree.WellFormed) :
    Attempted s (o.runAs keyword marks s).1 (o.runAs keyword marks s).2 := by
  induction o with
  | delete names => exact absurd hatomic (by simp [isAtomic])
  | prune names => exact absurd hatomic (by simp [isAtomic])
  | coindex names => exact absurd hatomic (by simp [isAtomic])
  | ifExists name negated guarded ih =>
    rw [runAs]
    split
    · exact ih hatomic
    · exact .refl s
  | excise top bottom =>
    exact attempt_attempted keyword (Step.fetch_sound fun top htop => Step.fetch_sound
      fun bottom hbottom => Step.edit_sound h (Edit.excise_sound h htop hbottom))
  | relabel name how => exact attempt_attempted keyword (Step.relabel_sound name how h)
  | insert operand place => exact attempt_attempted keyword (Step.insert_sound operand place h)
  | move name place => exact attempt_attempted keyword (Step.move_sound name place h)
  | replace name operands => exact attempt_attempted keyword (Step.replace_sound name operands h)
  | adjoin mode template target =>
    exact attempt_attempted keyword (Step.fetch_sound fun target _ =>
      Step.adjoin_sound mode template h)
  | createSubtree template first last =>
    exact attempt_attempted keyword (Step.createSubtree_sound template first last h)

/-- **Every operation keeps to known requests, whatever it reports.** -/
theorem runAs_ran (keyword : String) (marks : Marks) (o : Operation) (h : s.tree.WellFormed) :
    Ran s (o.runAs keyword marks s).1 (o.runAs keyword marks s).2 := by
  induction o with
  | delete names => exact forEach_ran keyword (fun _ _ _ hid => Edit.detach_sound hid) names h
  | prune names => exact forEach_ran keyword (fun _ _ hwf hid => Edit.prune_sound hwf hid) names h
  | coindex names =>
    exact forEach_ran keyword (fun _ _ _ hid => Edit.coindex_sound hid _) names h
  | ifExists name negated guarded ih =>
    rw [runAs]
    split
    · exact ih
    · exact (Attempted.refl s).toRan
  | _ =>
    -- all others are one attempt
    exact (runAs_attempted keyword marks _ rfl h).toRan

theorem runAll_ran (marks : Marks) (os : List Operation) (h : s.tree.WellFormed) :
    Ran s (runAll marks os s).1 (runAll marks os s).2 := by
  induction os generalizing s with
  | nil => exact (Attempted.refl s).toRan
  | cons o os ih =>
    have hfirst := runAs_ran o.keyword marks o h
    rw [runAll]
    exact hfirst.trans (ih (hfirst.wellFormed h))

end Operation

end Constituency
