import Mathlib.Data.List.Nodup
import Constituency.Proofs.Search.Matches

/-!
# One call for a match after the other

Between two calls for a match the tree may be changed, so that an enumeration is asked about one
tree after the other (`answers`). What a call can do is said once: a match comes from the machine at
the current root, or from a new machine at the first later root that has one (`Reporting`); without
a match the enumeration is finished (`finished_of_silent`), and stays so.

From this follows what holds of the reported matches whatever is done to the tree. The solutions
reported at a root are remembered, and a root that has been left is not come back to. Hence the
roots come in order, those of one root together, and no match is reported twice.
-/

namespace Constituency

/-! ## Lists without what repeats the element before -/

section repetitions

variable {α : Type} [BEq α]

theorem head?_eraseReps_cons (a : α) (as : List α) : (a :: as).eraseReps.head? = some a := by
  induction as with
  | nil => rfl
  | cons b bs ih =>
    rw [eraseReps_cons_cons]
    split
    · exact ih
    · rfl

variable [LawfulBEq α]

/-- What may be put in front of an ordered list may stand there several times. -/
theorem eraseReps_cons_sublist {a : α} {as bs : List α} (h : as.eraseReps.Sublist (a :: bs)) :
    (a :: as).eraseReps.Sublist (a :: bs) := by
  cases as with
  | nil => exact .cons_cons a (List.nil_sublist bs)
  | cons b as =>
    rw [eraseReps_cons_cons]
    split
    · rename_i hab
      obtain rfl := beq_iff_eq.mp hab
      exact h
    · rename_i hab
      refine .cons_cons a ?_
      -- the list begins with `b`, so that `a` is not needed for it
      obtain ⟨rest, hrest⟩ := List.head?_eq_some_iff.mp (head?_eraseReps_cons b as)
      rw [hrest] at h ⊢
      cases h with
      | cons _ h => exact h
      | cons_cons _ _ => exact absurd (beq_self_eq_true a) hab

end repetitions

namespace Machine

variable {s : Scene}

theorem run_of_step {g : Goal} {gs : List Goal} {b : Bindings} {cs : List Choice} {m : Machine}
    (h : step s (isPossible s b g) ⟨gs, b, cs⟩ g = some m) : run s ⟨g :: gs, b, cs⟩ = run s m := by
  rw [run_cons, h]
  rfl

/-- What a run of the resumed machine comes to is the next solution, if it had not been seen. -/
theorem nextUnseen_of_run {seen : List Bindings} {m n resumed : Machine}
    (hresumed : (if m.goals.isEmpty then backtrack m.choices else some m) = some resumed)
    (hrun : run s resumed = some n) (hseen : seen.contains n.bindings = false) :
    m.nextUnseen s seen = some (n.bindings, n) := by
  have hnext : m.next s = (some n.bindings, n) := by
    unfold next
    dsimp only
    rw [hresumed, Option.bind_some, hrun]
  rw [nextUnseen, hnext]
  dsimp only
  rw [if_neg (by rw [hseen]; exact Bool.false_ne_true)]

end Machine

namespace Enumeration

/-! ## What a call does -/

/-- An enumeration after a match was found at its current root, with what is left to try there. -/
def leave (e : Enumeration) (m : Match) (left : Machine) : Enumeration :=
  { e with
    current := match e.mode with
      | .firstPerRoot => none
      | .allBindings => some (m.root, left)
    seen := m.bindings :: e.seen }

/-- How a call comes to a match: at the current root, or at one of the others, those before it
having none. -/
inductive Reporting (e : Enumeration) (t : Tree) (m : Match) : Enumeration → Prop where
  | resumed {machine left : Machine} : e.current = some (m.root, machine) →
    machine.nextUnseen (e.scene t) e.seen = some (m.bindings, left) →
    Reporting e t m (e.leave m left)
  | turned {skipped rest : List NodeId} {left : Machine} : e.roots = skipped ++ m.root :: rest →
    (Machine.start e.pattern.root m.root e.pattern.names.length).nextUnseen (e.scene t) [] =
      some (m.bindings, left) →
    Reporting e t m ((e.turnTo m.root rest).leave m left)

variable {e e' : Enumeration} {t : Tree} {m : Match}

theorem resume_eq (e : Enumeration) (t : Tree) :
    e.resume t = e.current.bind fun c =>
      (c.2.nextUnseen (e.scene t) e.seen).map fun x =>
        (e.found c.1 x.1, e.leave (e.found c.1 x.1) x.2) := by
  unfold resume
  cases e.current with
  | none => rfl
  | some c =>
    show (c.2.nextUnseen (e.scene t) e.seen).bind _ = Option.map _ _
    cases c.2.nextUnseen (e.scene t) e.seen <;> rfl

theorem resume_found (h : e.resume t = some (m, e')) : m.names = e.pattern.names ∧
    ∃ machine left, e.current = some (m.root, machine) ∧
      machine.nextUnseen (e.scene t) e.seen = some (m.bindings, left) ∧ e' = e.leave m left := by
  rw [resume_eq] at h
  obtain ⟨⟨root, machine⟩, hcurrent, h⟩ := Option.bind_eq_some_iff.mp h
  obtain ⟨⟨b, left⟩, hnext, h⟩ := Option.map_eq_some_iff.mp h
  obtain ⟨rfl, rfl⟩ := Prod.mk.inj h
  exact ⟨rfl, machine, left, hcurrent, hnext, rfl⟩

theorem tryRoots_found {roots : List NodeId} (h : e.tryRoots t roots = (some m, e')) :
    m.names = e.pattern.names ∧ ∃ skipped rest left, roots = skipped ++ m.root :: rest ∧
      (Machine.start e.pattern.root m.root e.pattern.names.length).nextUnseen (e.scene t) [] =
        some (m.bindings, left) ∧
      e' = (e.turnTo m.root rest).leave m left := by
  induction roots generalizing e with
  | nil => exact absurd (Prod.mk.inj h).1 (by simp)
  | cons r rs ih =>
    rw [tryRoots_cons] at h
    split at h
    · rename_i hfound
      obtain ⟨hm, rfl⟩ := Prod.mk.inj h
      obtain rfl := Option.some.inj hm
      obtain ⟨hnames, machine, left, hcurrent, hnext, rfl⟩ := resume_found hfound
      obtain ⟨rfl, rfl⟩ := Prod.mk.inj (Option.some.inj hcurrent)
      exact ⟨hnames, [], rs, left, rfl, hnext, rfl⟩
    · obtain ⟨hnames, skipped, rest, left, rfl, hnext, rfl⟩ := ih h
      exact ⟨hnames, r :: skipped, rest, left, rfl, hnext, rfl⟩

theorem tryRoots_silent {roots : List NodeId} (h : e.tryRoots t roots = (none, e')) :
    e' = { e with roots := [], current := none, seen := e'.seen } := by
  induction roots generalizing e with
  | nil =>
    obtain ⟨_, rfl⟩ := Prod.mk.inj h
    rfl
  | cons r rs ih =>
    rw [tryRoots_cons] at h
    split at h
    · exact absurd (Prod.mk.inj h).1 (by simp)
    · exact ih (e := e.turnTo r rs) h

/-- **What a call does that comes to a match.** -/
theorem next_reporting (h : e.next t = (some m, e')) :
    e.isStale t = false ∧ m.names = e.pattern.names ∧ Reporting e t m e' := by
  unfold next at h
  split at h
  · exact absurd (Prod.mk.inj h).1 (by simp)
  · rename_i hstale
    refine ⟨by simpa using hstale, ?_⟩
    split at h
    · rename_i hfound
      obtain ⟨hm, rfl⟩ := Prod.mk.inj h
      obtain rfl := Option.some.inj hm
      obtain ⟨hnames, machine, left, hcurrent, hnext, rfl⟩ := resume_found hfound
      exact ⟨hnames, .resumed hcurrent hnext⟩
    · obtain ⟨hnames, skipped, rest, left, hroots, hnext, rfl⟩ := tryRoots_found h
      exact ⟨hnames, .turned hroots hnext⟩

/-- The root being tried after a match is the one of the match. -/
theorem leave_current {left machine : Machine} {root : NodeId}
    (h : (e.leave m left).current = some (root, machine)) : root = m.root := by
  unfold leave at h
  dsimp only at h
  split at h
  · exact absurd h (by simp)
  · exact (Prod.mk.inj (Option.some.inj h)).1.symm

theorem Reporting.current_root {machine : Machine} {root : NodeId} (h : Reporting e t m e')
    (hc : e'.current = some (root, machine)) : root = m.root := by
  cases h with
  | resumed _ _ => exact leave_current hc
  | turned _ _ => exact leave_current hc

/-- The first outstanding match is the answer. -/
theorem next_eq_head? (hstale : e.isStale t = false) : (e.next t).1 = (e.outstanding t).head? := by
  rcases hnext : e.next t with ⟨_ | m, e'⟩
  · rw [show e.outstanding t = [] from next_outstanding hstale hnext]
    rfl
  · rw [(next_outstanding hstale hnext).2]
    rfl

/-- A call that is not stopped goes on at the current root as long as there is something left. -/
theorem next_of_resume_some (hstale : e.isStale t = false) {x : Match × Enumeration}
    (h : e.resume t = some x) : e.next t = (some x.1, x.2) := by
  rw [next, if_neg (by rw [hstale]; exact Bool.false_ne_true), h]

/-- Otherwise it turns to the other roots. -/
theorem next_of_resume_none (hstale : e.isStale t = false) (h : e.resume t = none) :
    e.next t = e.tryRoots t e.roots := by
  rw [next, if_neg (by rw [hstale]; exact Bool.false_ne_true), h]

theorem resume_of_nextUnseen {r : NodeId} {b : Bindings} {machine left : Machine}
    (hcurrent : e.current = some (r, machine))
    (h : machine.nextUnseen (e.scene t) e.seen = some (b, left)) :
    e.resume t = some (e.found r b, e.leave (e.found r b) left) := by
  rw [resume_eq, hcurrent, Option.bind_some, h]
  rfl

/-- A call that finds another match at the current root. -/
theorem next_of_resumed {r : NodeId} {b : Bindings} {machine left : Machine}
    (hstale : e.isStale t = false) (hcurrent : e.current = some (r, machine))
    (h : machine.nextUnseen (e.scene t) e.seen = some (b, left)) :
    e.next t = (some (e.found r b), e.leave (e.found r b) left) :=
  next_of_resume_some hstale (resume_of_nextUnseen hcurrent h)

/-- A call that finds a match at the first of the other roots. -/
theorem next_of_turned {r : NodeId} {rs : List NodeId} {b : Bindings} {left : Machine}
    (hstale : e.isStale t = false) (hcurrent : e.current = none) (hroots : e.roots = r :: rs)
    (h : (Machine.start e.pattern.root r e.pattern.names.length).nextUnseen (e.scene t) [] =
      some (b, left)) :
    e.next t = (some (e.found r b), (e.turnTo r rs).leave (e.found r b) left) := by
  have hnone : e.resume t = none := by rw [resume_eq, hcurrent]; rfl
  have hfound := resume_of_nextUnseen (e := e.turnTo r rs) rfl h
  rw [next_of_resume_none hstale hnone, hroots, tryRoots_cons, hfound]
  rfl

/-- **What a call does that comes to no match**: it stops the enumeration, or has tried all
roots. -/
theorem next_silent (h : e.next t = (none, e')) :
    e.isStale t = true ∧ e' = { e with stale := true } ∨
      e' = { e with roots := [], current := none, seen := e'.seen } := by
  unfold next at h
  split at h
  · rename_i hstale
    exact .inl ⟨hstale, (Prod.mk.inj h).2.symm⟩
  · split at h
    · exact absurd (Prod.mk.inj h).1 (by simp)
    · exact .inr (tryRoots_silent h)

/-- Whether an enumeration has been stopped, or has tried everything. -/
structure Finished (e : Enumeration) : Prop where
  done : e.stale = true ∨ e.roots = [] ∧ e.current = none

/-- A call that comes to no match finishes the enumeration. -/
theorem finished_of_silent (h : (e.next t).1 = none) : (e.next t).2.Finished := by
  rcases hnext : e.next t with ⟨found, e'⟩
  rw [hnext] at h
  obtain rfl : found = none := h
  rcases next_silent hnext with ⟨_, hstopped⟩ | htried
  · exact ⟨.inl (hstopped ▸ rfl)⟩
  · exact ⟨.inr (htried ▸ ⟨rfl, rfl⟩)⟩

/-- A finished enumeration has no match any more, whatever the tree has become. -/
theorem Finished.next_eq_none (h : e.Finished) (t : Tree) : (e.next t).1 = none := by
  rcases hnext : e.next t with ⟨_ | m, e'⟩
  · rfl
  · obtain ⟨hstale, _, hreporting⟩ := next_reporting hnext
    rcases h.done with hstopped | ⟨hroots, hcurrent⟩
    · rw [isStale, hstopped, Bool.true_or] at hstale
      exact absurd hstale (by simp)
    · cases hreporting with
      | resumed hc _ => exact absurd (hcurrent.symm.trans hc) (by simp)
      | turned hr _ => exact absurd (hroots.symm.trans hr) (by simp)

/-! ## Answers -/

/-- The answers to calls, one tree after the other being asked about. -/
def answers (e : Enumeration) : List Tree → List (Option Match)
  | [] => []
  | t :: ts => (e.next t).1 :: (e.next t).2.answers ts

/-- The enumeration after calls. -/
def after (e : Enumeration) : List Tree → Enumeration
  | [] => e
  | t :: ts => (e.next t).2.after ts

/-- The matches among the answers. -/
def reports (e : Enumeration) (ts : List Tree) : List Match := (e.answers ts).filterMap id

variable {ts : List Tree}

theorem answers_append (e : Enumeration) (ts us : List Tree) :
    e.answers (ts ++ us) = e.answers ts ++ (e.after ts).answers us := by
  induction ts generalizing e with
  | nil => rfl
  | cons t ts ih => exact congrArg _ (ih _)

theorem after_append (e : Enumeration) (ts us : List Tree) :
    e.after (ts ++ us) = (e.after ts).after us := by
  induction ts generalizing e with
  | nil => rfl
  | cons t ts ih => exact ih _

/-- A finished enumeration stays finished. -/
theorem Finished.answers (h : e.Finished) (ts : List Tree) :
    e.answers ts = List.replicate ts.length none := by
  induction ts generalizing e with
  | nil => rfl
  | cons t ts ih =>
    have hnone := h.next_eq_none t
    rw [Enumeration.answers, hnone, ih (finished_of_silent hnone)]
    rfl

theorem Finished.reports (h : e.Finished) (ts : List Tree) : e.reports ts = [] := by
  rw [Enumeration.reports, h.answers, List.filterMap_replicate_of_none rfl]

theorem reports_cons_of_next (h : e.next t = (some m, e')) :
    e.reports (t :: ts) = m :: e'.reports ts := by
  rw [reports, answers, h]
  exact List.filterMap_cons_some rfl

theorem reports_cons_of_silent (h : (e.next t).1 = none) : e.reports (t :: ts) = [] := by
  rw [reports, answers, h]
  exact (List.filterMap_cons_none rfl).trans ((finished_of_silent h).reports ts)

/-- **The matches come first**, and once there is none there is never one again. -/
theorem answers_eq_reports (e : Enumeration) (ts : List Tree) : ∃ n,
    e.answers ts = (e.reports ts).map some ++ List.replicate n none := by
  induction ts generalizing e with
  | nil => exact ⟨0, rfl⟩
  | cons t ts ih =>
    rcases hnext : e.next t with ⟨_ | m, e'⟩
    · have hnone : (e.next t).1 = none := by rw [hnext]
      refine ⟨ts.length + 1, ?_⟩
      rw [reports_cons_of_silent hnone, answers, hnone, (finished_of_silent hnone).answers]
      rfl
    · obtain ⟨n, hn⟩ := ih e'
      refine ⟨n, ?_⟩
      rw [reports_cons_of_next hnext, answers, hnext, hn]
      rfl

/-! ## The order of the roots -/

/-- The roots from the one being tried on. -/
def rootsLeft (e : Enumeration) : List NodeId := (e.current.map Prod.fst).toList ++ e.roots

/-- The root of a match is left before it, and those that have not been tried after it. -/
theorem Reporting.rootsLeft (h : Reporting e t m e') :
    (m.root :: e'.roots).Sublist e.rootsLeft := by
  unfold Enumeration.rootsLeft
  cases h with
  | resumed hcurrent _ =>
    rw [hcurrent]
    exact .refl _
  | @turned skipped rest _ hroots _ =>
    rw [hroots, ← List.append_assoc]
    exact List.sublist_append_right ..

theorem rootsLeft_leave (e : Enumeration) (m : Match) (left : Machine) :
    (e.leave m left).rootsLeft.Sublist (m.root :: e.roots) := by
  unfold Enumeration.rootsLeft leave
  cases e.mode with
  | firstPerRoot => exact .cons _ (.refl _)
  | allBindings => exact .refl _

/-- What is left after a match are roots from its own on. -/
theorem Reporting.rootsLeft_sublist (h : Reporting e t m e') :
    e'.rootsLeft.Sublist (m.root :: e'.roots) := by
  cases h with
  | resumed _ _ => exact rootsLeft_leave ..
  | turned _ _ => exact rootsLeft_leave ..

/-- **The matches come root by root**, those of one root together and the roots in the order in
which the enumeration has them. -/
theorem reports_roots (e : Enumeration) (ts : List Tree) :
    ((e.reports ts).map Match.root).eraseReps.Sublist e.rootsLeft := by
  induction ts generalizing e with
  | nil => exact List.nil_sublist _
  | cons t ts ih =>
    rcases hnext : e.next t with ⟨_ | m, e'⟩
    · rw [reports_cons_of_silent (by rw [hnext])]
      exact List.nil_sublist _
    · obtain ⟨_, _, hreporting⟩ := next_reporting hnext
      rw [reports_cons_of_next hnext, List.map_cons]
      exact (eraseReps_cons_sublist ((ih e').trans hreporting.rootsLeft_sublist)).trans
        hreporting.rootsLeft

/-! ## No match twice -/

/-- A report is about the root being tried, with a solution that was not seen there, or about a root
that has not been tried. -/
inductive Fresh (e : Enumeration) (m : Match) : Prop where
  | unseen {machine : Machine} :
      e.current = some (m.root, machine) → m.bindings ∉ e.seen → Fresh e m
  | untried : m.root ∈ e.roots → Fresh e m

theorem Reporting.fresh (h : Reporting e t m e') : e.Fresh m := by
  cases h with
  | resumed hcurrent hnext => exact .unseen hcurrent (Machine.nextUnseen_not_mem hnext)
  | turned hroots _ => exact .untried (hroots ▸ List.mem_append_right _ (List.mem_cons_self ..))

/-- What is reported after a match could have been reported before it. -/
theorem Reporting.fresh_of_later {later : Match} (h : Reporting e t m e')
    (hlater : e'.Fresh later) : e.Fresh later := by
  cases h with
  | resumed hcurrent _ =>
    cases hlater with
    | unseen hc hseen =>
      rw [← leave_current hc] at hcurrent
      exact .unseen hcurrent fun hb => hseen (List.mem_cons_of_mem _ hb)
    | untried hroots => exact .untried hroots
  | turned hroots _ =>
    cases hlater with
    | unseen hc _ =>
      refine .untried ?_
      rw [leave_current hc, hroots]
      exact List.mem_append_right _ (List.mem_cons_self ..)
    | untried hrest =>
      refine .untried ?_
      rw [hroots]
      exact List.mem_append_right _ (List.mem_cons_of_mem _ hrest)

theorem fresh_of_mem_reports (h : m ∈ e.reports ts) : e.Fresh m := by
  induction ts generalizing e with
  | nil => exact absurd h List.not_mem_nil
  | cons t ts ih =>
    rcases hnext : e.next t with ⟨_ | first, e'⟩
    · rw [reports_cons_of_silent (by rw [hnext])] at h
      exact absurd h List.not_mem_nil
    · obtain ⟨_, _, hreporting⟩ := next_reporting hnext
      rw [reports_cons_of_next hnext] at h
      rcases List.mem_cons.mp h with rfl | h
      · exact hreporting.fresh
      · exact hreporting.fresh_of_later (ih h)

/-- The bindings of a match are remembered. -/
theorem Reporting.mem_seen (h : Reporting e t m e') : m.bindings ∈ e'.seen := by
  cases h <;> exact List.mem_cons_self ..

theorem mem_reports_concat (h : ((e.after ts).next t).1 = some m) : m ∈ e.reports (ts ++ [t]) := by
  rw [reports, answers_append]
  refine List.mem_filterMap.mpr ⟨some m, List.mem_append_right _ ?_, rfl⟩
  exact h ▸ List.mem_cons_self ..

/-- A reported match is the answer to one of the calls. -/
theorem exists_call_of_mem_reports (h : m ∈ e.reports ts) :
    ∃ earlier t later, ts = earlier ++ t :: later ∧ ((e.after earlier).next t).1 = some m := by
  induction ts generalizing e with
  | nil => exact absurd h List.not_mem_nil
  | cons t ts ih =>
    rcases hnext : e.next t with ⟨_ | first, e'⟩
    · rw [reports_cons_of_silent (by rw [hnext])] at h
      exact absurd h List.not_mem_nil
    · rw [reports_cons_of_next hnext] at h
      rcases List.mem_cons.mp h with rfl | h
      · exact ⟨[], t, ts, rfl, congrArg Prod.fst hnext⟩
      · obtain ⟨earlier, u, later, rfl, hm⟩ := ih h
        refine ⟨t :: earlier, u, later, rfl, ?_⟩
        rw [after, hnext]
        exact hm

/-- **No pair of a root and bindings is reported twice.** -/
theorem reports_distinct (h : e.rootsLeft.Nodup) :
    ((e.reports ts).map fun m => (m.root, m.bindings)).Nodup := by
  induction ts generalizing e with
  | nil => exact .nil
  | cons t ts ih =>
    rcases hnext : e.next t with ⟨_ | m, e'⟩
    · rw [reports_cons_of_silent (by rw [hnext])]
      exact .nil
    · obtain ⟨_, _, hreporting⟩ := next_reporting hnext
      have hroots : (m.root :: e'.roots).Nodup := h.sublist hreporting.rootsLeft
      rw [reports_cons_of_next hnext, List.map_cons, List.nodup_cons]
      refine ⟨fun hmem => ?_, ih (hroots.sublist hreporting.rootsLeft_sublist)⟩
      obtain ⟨later, hlater, hsame⟩ := List.mem_map.mp hmem
      obtain ⟨hroot, hbindings⟩ := Prod.mk.inj hsame
      cases fresh_of_mem_reports hlater with
      | unseen _ hseen => exact hseen (hbindings ▸ hreporting.mem_seen)
      | untried hin => exact (List.nodup_cons.mp hroots).1 (hroot ▸ hin)

/-! ## Attached nodes -/

/-- The roots of an enumeration are attached nodes, in the order of the tree. -/
theorem rootsOf_sublist (h : t.WellFormed) (p : Pattern) :
    (rootsOf p (Index.build t)).Sublist t.attached := by
  unfold rootsOf
  split
  · rw [roots_of_labels h]
    exact List.filter_sublist
  · exact .refl _

end Enumeration

end Constituency
