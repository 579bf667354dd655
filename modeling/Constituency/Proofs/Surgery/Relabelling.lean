import Constituency.Proofs.Search.Bound
import Constituency.Proofs.Surgery.Exhaustion

/-!
# Relabelling comes to an end

A process whose script changes nothing but labels never begins to enumerate anew, however the labels
that it gives bear on the matches to come. Its applications are made to the matches that a single
enumeration reports, one after the other (`applicationsFrom_reports`). Of these there are not more
than the nodes allow, so that the process ends by itself under every limit that is not below
(`Pattern.matchBound`), and from there on the limit makes no difference.
-/

namespace Constituency

open Constituency.Tree

namespace Rule

variable {r : Rule} {e : Enumeration} {t : Tree} {limit : Nat}

/-- An application of a script that can change nothing but labels is not counted. -/
theorem outcome_uncounted (hr : ∀ o ∈ r.script.operations, o.isLabelling = true)
    (ht : t.WellFormed) (m : Match) :
    t.Uncounted (r.outcome ⟨t, m⟩).tree ∧ (r.outcome ⟨t, m⟩).restructured = false := by
  have huncounted : t.Uncounted (r.outcome ⟨t, m⟩).tree :=
    r.script.apply_uncounted ht (Operation.areUncounted_of_isLabelling _ hr _)
  refine ⟨huncounted, ?_⟩
  show ((r.outcome ⟨t, m⟩).tree.revision != t.revision) = false
  rw [huncounted.revision, bne_self_eq_false]

/-- **All applications are made to matches of one enumeration**, in trees that have not been
counted. -/
theorem applicationsFrom_reports (hr : ∀ o ∈ r.script.operations, o.isLabelling = true)
    (limit : Nat) (e : Enumeration) (ht : t.WellFormed) :
    (∀ a ∈ r.applicationsFrom limit e t,
        t.Uncounted a.before ∧ (r.outcome a).restructured = false) ∧
      (r.applicationsFrom limit e t).map Application.matched =
        e.reports ((r.applicationsFrom limit e t).map Application.before) := by
  have hnil : ∀ {e : Enumeration} {t : Tree} {as : List Application}, as = [] →
      (∀ a ∈ as, t.Uncounted a.before ∧ (r.outcome a).restructured = false) ∧
        as.map Application.matched = e.reports (as.map Application.before) := by
    rintro e t _ rfl
    exact ⟨fun _ ha => absurd ha List.not_mem_nil, rfl⟩
  induction limit generalizing e t with
  | zero =>
    rcases next_cases e t with hdone | ⟨hempty, m, e', hnext⟩
    · exact hnil (runFrom_done 0 hdone).2
    · exact hnil (runFrom_stopped hempty hnext).2
  | succ limit ih =>
    rcases next_cases e t with hdone | ⟨hempty, m, e', hnext⟩
    · exact hnil (runFrom_done _ hdone).2
    · obtain ⟨huncounted, hquiet⟩ := outcome_uncounted hr ht m
      obtain ⟨hrest, hmatches⟩ := ih e' (ht.edits huncounted.edits).1
      rw [(runFrom_step limit hempty hnext).2, resume_of_not_restructured hquiet]
      refine ⟨List.forall_mem_cons.mpr ⟨⟨.refl t, hquiet⟩, fun a ha => ?_⟩, ?_⟩
      · exact ⟨huncounted.trans (hrest a ha).1, (hrest a ha).2⟩
      · rw [List.map_cons, List.map_cons, Enumeration.reports_cons_of_next hnext, hmatches]

/-- A process that was stopped by its limit would have gone on under a higher one. -/
theorem length_of_limitReached (h : (r.runFrom limit e t).2.limitReached = true) :
    (r.applicationsFrom (limit + 1) e t).length = limit + 1 := by
  have hdone : ∀ {limit e t}, (t.isEmpty = true ∨ (e.next t).1 = none) →
      (r.runFrom limit e t).2.limitReached ≠ true := fun hdone => by
    rw [(runFrom_done _ hdone).1]
    exact Bool.false_ne_true
  induction limit generalizing e t with
  | zero =>
    rcases next_cases e t with hend | ⟨hempty, m, e', hnext⟩
    · exact absurd h (hdone hend)
    · have hnone : ∀ e t, r.applicationsFrom 0 e t = [] := by
        intro e t
        rcases next_cases e t with hend | ⟨hempty, m, e', hnext⟩
        · exact (runFrom_done 0 hend).2
        · exact (runFrom_stopped hempty hnext).2
      rw [(runFrom_step 0 hempty hnext).2, hnone]
      rfl
  | succ limit ih =>
    rcases next_cases e t with hend | ⟨hempty, m, e', hnext⟩
    · exact absurd h (hdone hend)
    · rw [(runFrom_step limit hempty hnext).1] at h
      rw [(runFrom_step (limit + 1) hempty hnext).2, List.length_cons, ih h]

/-- A process that was not stopped by its limit is the same under a higher one. -/
theorem runFrom_add (h : (r.runFrom limit e t).2.limitReached = false) (k : Nat) :
    r.runFrom (limit + k) e t = r.runFrom limit e t := by
  induction limit generalizing e t with
  | zero =>
    rcases next_cases e t with hend | ⟨hempty, m, e', hnext⟩
    · rw [(runFrom_done _ hend).1, (runFrom_done _ hend).1]
    · rw [(runFrom_stopped hempty hnext).1] at h
      exact absurd h (by simp)
  | succ limit ih =>
    rcases next_cases e t with hend | ⟨hempty, m, e', hnext⟩
    · rw [(runFrom_done _ hend).1, (runFrom_done _ hend).1]
    · rw [(runFrom_step limit hempty hnext).1] at h
      rw [Nat.add_right_comm, (runFrom_step (limit + k) hempty hnext).1,
        (runFrom_step limit hempty hnext).1, ih h]

variable {t₀ : Tree}

/-- There are not more applications than there can be matches. -/
theorem length_applications_le (hr : ∀ o ∈ r.script.operations, o.isLabelling = true)
    (h₀ : t₀.WellFormed) (limit : Nat) :
    (r.applications limit t₀).length ≤ r.pattern.matchBound t₀ := by
  obtain ⟨hquiet, hmatches⟩ :=
    applicationsFrom_reports hr limit (.start r.pattern .allBindings t₀) h₀
  have hcalls : ∀ u ∈ (r.applications limit t₀).map Application.before, t₀.Uncounted u := by
    intro u hu
    obtain ⟨a, ha, rfl⟩ := List.mem_map.mp hu
    exact (hquiet a ha).1
  have hle : ((Enumeration.start r.pattern .allBindings t₀).reports _).length ≤ _ :=
    Pattern.length_reports_le h₀ hcalls
  rwa [applications, ← hmatches, List.length_map] at hle

/-- **Relabelling between calls leaves an enumeration finite, ordered and without repetitions, and a
process that only relabels ends by itself.**

Let an enumeration be asked about a tree that is relabelled between the calls. Its matches come
before its silence. There are at most as many as there are ways of choosing nodes, their roots come
in pre-order, those of one root together, and no pair of a root and bindings is reported twice.

Let the operations of a script be relabelling and coindexing, bare or guarded. No application to the
matches of a pattern changes the structure, so the enumeration is never begun anew. There are never
more applications than ways of choosing nodes, and a limit that is not below this number is not
reached and makes no difference. -/
theorem relabelling_ends (h₀ : t₀.WellFormed) :
    (∀ (p : Pattern) (mode : Mode) (ts : List Tree), (∀ u ∈ ts, t₀.Uncounted u) →
      let e := Enumeration.start p mode t₀
      (∃ n, e.answers ts = (e.reports ts).map some ++ List.replicate n none) ∧
        (e.reports ts).length ≤ p.matchBound t₀ ∧
        ((e.reports ts).map Match.root).eraseReps.Sublist t₀.attached ∧
        ((e.reports ts).map fun m => (m.root, m.bindings)).Nodup) ∧
    ∀ r : Rule, (∀ o ∈ r.script.operations, o.isLabelling = true) → ∀ limit,
      (∀ a ∈ r.applications limit t₀, (r.outcome a).restructured = false) ∧
        (r.run limit t₀).2.applications ≤ r.pattern.matchBound t₀ ∧
        (r.pattern.matchBound t₀ ≤ limit → (r.run limit t₀).2.limitReached = false ∧
          r.run limit t₀ = r.run (r.pattern.matchBound t₀) t₀) := by
  constructor
  · intro p mode ts hts e
    have hroots : e.rootsLeft.Sublist t₀.attached := Enumeration.rootsOf_sublist h₀ p
    exact ⟨e.answers_eq_reports ts, Pattern.length_reports_le h₀ hts,
      (e.reports_roots ts).trans hroots,
      Enumeration.reports_distinct (h₀.attached_nodup.sublist hroots)⟩
  · intro r hr limit
    have hbelow : ∀ limit, r.pattern.matchBound t₀ ≤ limit →
        (r.run limit t₀).2.limitReached = false := by
      intro limit hle
      refine Bool.eq_false_iff.mpr fun hreached => ?_
      have hlength := length_of_limitReached hreached
      have hbound := length_applications_le hr h₀ (limit + 1)
      rw [applications, hlength] at hbound
      omega
    refine ⟨fun a ha => ((applicationsFrom_reports hr limit _ h₀).1 a ha).2, ?_, fun hle => ?_⟩
    · rw [(run_eq_applications r limit t₀).2.1]
      exact length_applications_le hr h₀ limit
    · obtain ⟨k, rfl⟩ := Nat.exists_eq_add_of_le hle
      exact ⟨hbelow _ hle, runFrom_add (hbelow _ (Nat.le_refl _)) k⟩

/-- In `(A (B b) (B c))` the pattern `A < B=x` is asked for twice, the second time with the `A`
called `C`. In `(S (A x))` every node is given the index of the one before it and one more, without
the limit being reached. -/
theorem relabelling_ends_coindexing :
    let c : Constituent := .node "A" [.node "B" [.node "b" []], .node "B" [.node "c" []]]
    let t' := Tree.ofConstituent (some c)
    let u := (t'.request (.setLabel 0 "C")).1
    let target : NodePattern := .mk ⟨false, .oneOf [.literal "B"], []⟩ (some 0) none
    let root : NodePattern :=
      .mk ⟨false, .oneOf [.literal "A"], []⟩ none (some (.related .parentOf target))
    let q : Pattern := ⟨"A < B=x", root, ["x"], [true], .standard⟩
    let e := Enumeration.start q .allBindings t'
    let t := Tree.ofConstituent (some (.node "S" [.node "A" [.node "x" []]]))
    let p : Pattern := ⟨"__=n", .mk .any (some 0) none, ["n"], [true], .standard⟩
    let r : Rule := ⟨p, ⟨"coindex n", [.coindex ["n"]], .standard⟩⟩
    (t'.WellFormed ∧ (∀ v ∈ [t', u], t'.Uncounted v) ∧
      e.reports [t', u] = [⟨0, [some 1], ["x"]⟩, ⟨0, [some 3], ["x"]⟩] ∧
      (e.reports [t', u]).length ≤ q.matchBound t' ∧
      ((e.reports [t', u]).map Match.root).eraseReps.Sublist t'.attached ∧
      ((e.reports [t', u]).map fun m => (m.root, m.bindings)).Nodup) ∧
    t.WellFormed ∧ (∀ o ∈ r.script.operations, o.isLabelling = true) ∧ p.matchBound t = 12 ∧
      (∀ limit, (r.run limit t).2.applications ≤ 12) ∧
      (r.run 10000 t).2.limitReached = false ∧ r.run 10000 t = r.run 12 t := by
  intro c t' u target root q e t p r
  constructor
  · have ht : t'.WellFormed := Tree.wellFormed_ofConstituent _
    have hts : ∀ v ∈ [t', u], t'.Uncounted v :=
      List.forall_mem_cons.mpr ⟨.refl t', List.forall_mem_singleton.mpr (.setLabel ht 0 "C")⟩
    have hfirst : (e.next t').1 = some ⟨0, [some 1], ["x"]⟩ := by
      rw [next_start ht]
      decide
    have hsecond : ((e.next t').2.next u).1 = some ⟨0, [some 3], ["x"]⟩ :=
      Pattern.next_after_relabelling "A < B=x" [true] .standard
    have hreports : e.reports [t', u] = [⟨0, [some 1], ["x"]⟩, ⟨0, [some 3], ["x"]⟩] := by
      rw [Enumeration.reports, Enumeration.answers, Enumeration.answers, hfirst, hsecond]
      rfl
    obtain ⟨-, hbound, hroots, hdistinct⟩ := (relabelling_ends ht).1 q .allBindings [t', u] hts
    exact ⟨ht, hts, hreports, hbound, hroots, hdistinct⟩
  · have ht : t.WellFormed := Tree.wellFormed_ofConstituent _
    have hr : ∀ o ∈ r.script.operations, o.isLabelling = true := by decide
    have hbound : p.matchBound t = 12 := by decide
    have hall := (relabelling_ends ht).2 r hr
    have hlast := (hall 10000).2.2 (by rw [hbound]; decide)
    exact ⟨ht, hr, hbound, fun limit => hbound ▸ (hall limit).2.1, hlast.1,
      hlast.2.trans (congrArg (r.run · t) hbound)⟩

end Rule

end Constituency
