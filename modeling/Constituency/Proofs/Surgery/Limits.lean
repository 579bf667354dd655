import Mathlib.Algebra.GroupWithZero.Nat
import Constituency.Proofs.Surgery.Exhaustion

/-!
# What a limit does to a process

A limit cuts a process short and does nothing else. The test stands between a match and its
application, in a loop that may begin to enumerate anew and that also ends with the tree, so it is
shown along the loop: under a lower limit a process makes the first of the applications that it
makes under a higher one (`applicationsFrom_take`), and it says that its limit was reached just when
it leaves a tree that is not empty and an enumeration that is not at its end (`runFrom_reaches`).

Several rules are run one after the other, each with the limit to itself, and what is reported in
the end is put together from their reports (`runAll_stages`).
-/

namespace Constituency

open Constituency.Tree

/-- There is a tree to go on with, and a match to come in it. -/
def Enumeration.Continues (e : Enumeration) (t : Tree) : Prop :=
  t.isEmpty = false ∧ ∃ m e', e.next t = (some m, e')

theorem Enumeration.not_continues {e : Enumeration} {t : Tree}
    (h : t.isEmpty = true ∨ (e.next t).1 = none) : ¬ e.Continues t := by
  rintro ⟨hempty, m, e', hnext⟩
  rw [hempty, hnext] at h
  exact absurd h (by simp)

namespace Rule

variable (r : Rule)

/-- Applications lead from an enumeration and a tree to what is left of both: each is made to the
next match, in a tree that is not empty. -/
inductive Reaches : Enumeration → Tree → List Application → Enumeration → Tree → Prop where
  | refl {e : Enumeration} {t : Tree} : Reaches e t [] e t
  | step {e e' f : Enumeration} {t u : Tree} {m : Match} {as : List Application} :
    t.isEmpty = false → e.next t = (some m, e') →
    Reaches (r.resume (r.outcome ⟨t, m⟩) e') (r.outcome ⟨t, m⟩).tree as f u →
    Reaches e t (⟨t, m⟩ :: as) f u

variable {r} {e f f' : Enumeration} {t u u' : Tree} {as : List Application} {k m : Nat}

/-- Applications lead to one end only. -/
theorem Reaches.unique (h : r.Reaches e t as f u) (h' : r.Reaches e t as f' u') :
    f = f' ∧ u = u' := by
  induction h with
  | refl =>
    cases h'
    exact ⟨rfl, rfl⟩
  | step _ hnext _ ih =>
    cases h' with
    | step _ hnext' hrest' =>
      obtain ⟨_, rfl⟩ := Prod.mk.inj (hnext.symm.trans hnext')
      exact ih hrest'

/-- **Under a lower limit a process makes the first applications** of those under a higher one. -/
theorem applicationsFrom_take (h : k ≤ m) (e : Enumeration) (t : Tree) :
    r.applicationsFrom k e t = (r.applicationsFrom m e t).take k := by
  induction k generalizing m e t with
  | zero =>
    rcases next_cases e t with hdone | ⟨hempty, _, _, hnext⟩
    · exact (runFrom_done 0 hdone).2
    · exact (runFrom_stopped hempty hnext).2
  | succ k ih =>
    rcases next_cases e t with hdone | ⟨hempty, _, _, hnext⟩
    · rw [(runFrom_done _ hdone).2, (runFrom_done _ hdone).2, List.take_nil]
    · obtain ⟨m, rfl⟩ := Nat.exists_eq_add_of_le' h
      rw [← Nat.add_assoc] at h ⊢
      rw [(runFrom_step k hempty hnext).2, (runFrom_step (m + k) hempty hnext).2,
        List.take_succ_cons, ih (Nat.le_add_left k m)]

theorem length_applicationsFrom_le (limit : Nat) (e : Enumeration) (t : Tree) :
    (r.applicationsFrom limit e t).length ≤ limit := by
  rw [applicationsFrom_take (Nat.le_refl limit)]
  exact List.length_take_le ..

/-- **A process stops at its limit, or where nothing is left to do**, and tells the one from the
other. -/
theorem runFrom_reaches (limit : Nat) (e : Enumeration) (t : Tree) :
    ∃ f, r.Reaches e t (r.applicationsFrom limit e t) f (r.runFrom limit e t).1 ∧
      ((r.runFrom limit e t).2.limitReached = true ↔ f.Continues (r.runFrom limit e t).1) ∧
      (f.Continues (r.runFrom limit e t).1 → (r.applicationsFrom limit e t).length = limit) := by
  have hend : ∀ {limit e t}, (t.isEmpty = true ∨ (e.next t).1 = none) →
      ∃ f, r.Reaches e t (r.applicationsFrom limit e t) f (r.runFrom limit e t).1 ∧
        ((r.runFrom limit e t).2.limitReached = true ↔ f.Continues (r.runFrom limit e t).1) ∧
        (f.Continues (r.runFrom limit e t).1 →
          (r.applicationsFrom limit e t).length = limit) := by
    intro limit e t hdone
    have hnot := Enumeration.not_continues hdone
    rw [(runFrom_done limit hdone).1, (runFrom_done limit hdone).2]
    exact ⟨e, .refl, iff_of_false Bool.false_ne_true hnot, fun h => absurd h hnot⟩
  induction limit generalizing e t with
  | zero =>
    rcases next_cases e t with hdone | ⟨hempty, m, e', hnext⟩
    · exact hend hdone
    · rw [(runFrom_stopped hempty hnext).1, (runFrom_stopped hempty hnext).2]
      exact ⟨e, .refl, iff_of_true rfl ⟨hempty, m, e', hnext⟩, fun _ => rfl⟩
  | succ limit ih =>
    rcases next_cases e t with hdone | ⟨hempty, m, e', hnext⟩
    · exact hend hdone
    · obtain ⟨f, hreaches, hlimit, hlength⟩ :=
        ih (r.resume (r.outcome ⟨t, m⟩) e') (r.outcome ⟨t, m⟩).tree
      rw [(runFrom_step limit hempty hnext).1, (runFrom_step limit hempty hnext).2]
      exact ⟨f, .step hempty hnext hreaches, hlimit, fun h => congrArg (· + 1) (hlength h)⟩

/-! ## Several rules -/

/-- Rules that are run one after the other, each with the tree that it finds. -/
def stages (limit : Nat) : List Rule → Tree → List (Rule × Tree)
  | [], _ => []
  | r :: rs, t => (r, t) :: stages limit rs (r.run limit t).1

theorem map_fst_stages (limit : Nat) (rs : List Rule) (t : Tree) :
    (stages limit rs t).map Prod.fst = rs := by
  induction rs generalizing t with
  | nil => rfl
  | cons r rs ih => exact congrArg (r :: ·) (ih _)

/-- Every rule finds the tree that the rules before it leave. -/
theorem before_of_stages {limit : Nat} {rs : List Rule} {front back : List (Rule × Tree)}
    (h : stages limit rs t = front ++ (r, u) :: back) :
    u = (runAll limit (front.map Prod.fst) t).1 := by
  induction front generalizing rs t with
  | nil =>
    cases rs with
    | nil => exact absurd h (by simp [stages])
    | cons r' rs =>
      obtain ⟨hstage, _⟩ := List.cons.inj h
      exact (Prod.mk.inj hstage).2.symm
  | cons stage front ih =>
    cases rs with
    | nil => exact absurd h (by simp [stages])
    | cons r' rs =>
      obtain ⟨rfl, hrest⟩ := List.cons.inj h
      exact ih hrest

/-- **The report of several rules is the sum of their reports.** -/
theorem runAll_stages (limit : Nat) (rs : List Rule) (t : Tree) :
    let reports := (stages limit rs t).map fun stage => (stage.1.run limit stage.2).2
    (runAll limit rs t).2 = ⟨(reports.map Report.applications).sum,
      reports.flatMap Report.diagnostics, reports.any Report.limitReached⟩ := by
  induction rs generalizing t with
  | nil => rfl
  | cons r rs ih =>
    intro reports
    show (r.run limit t).2 ++ (runAll limit rs (r.run limit t).1).2 = _
    rw [ih]
    rfl

/-! ## Processes under limits -/

/-- **A limit cuts a process short, and is reported when it does.**

Let a limit not be above another. Then the process makes the first applications of those that it
makes under the other limit, so that matches, trees and diagnostics are the same as far as it goes.
It never makes more than its limit allows. It reports that the limit was reached if and only if it
leaves a tree that is not empty and a match to come there, and then it has made as many applications
as the limit allows.

Several rules report the sums of what they report one by one, each run with the limit to itself in
the tree that the rules before it leave. -/
theorem run_limited (r : Rule) (h : k ≤ m) (t : Tree) :
    r.applications k t = (r.applications m t).take k ∧
    (r.run k t).2.applications = min k (r.run m t).2.applications ∧
    (∀ limit, let as := r.applications limit t
      (r.run limit t).1 = r.treeAfter t as ∧
      (r.run limit t).2.applications = as.length ∧ as.length ≤ limit ∧
      (r.run limit t).2.diagnostics = as.flatMap (r.outcome · |>.diagnostics) ∧
      ∃ e, r.Reaches (.start r.pattern .allBindings t) t as e (r.run limit t).1 ∧
        ((r.run limit t).2.limitReached = true ↔ e.Continues (r.run limit t).1) ∧
        (e.Continues (r.run limit t).1 → as.length = limit)) ∧
    ∀ (limit : Nat) (rs : List Rule), let trees := stages limit rs t
      let reports := trees.map fun stage => (stage.1.run limit stage.2).2
      trees.map Prod.fst = rs ∧
      (∀ front r u back, trees = front ++ (r, u) :: back →
        u = (runAll limit (front.map Prod.fst) t).1) ∧
      (∀ report ∈ reports, report.applications ≤ limit) ∧
      (runAll limit rs t).2 = ⟨(reports.map Report.applications).sum,
        reports.flatMap Report.diagnostics, reports.any Report.limitReached⟩ := by
  have htake : r.applications k t = (r.applications m t).take k := applicationsFrom_take h _ t
  refine ⟨htake, ?_, fun limit => ?_, fun limit rs => ?_⟩
  · rw [(run_eq_applications r k t).2.1, (run_eq_applications r m t).2.1, htake, List.length_take]
  · obtain ⟨htree, hcount, hdiagnostics, _⟩ := run_eq_applications r limit t
    exact ⟨htree, hcount, length_applicationsFrom_le limit _ t, hdiagnostics,
      runFrom_reaches limit _ t⟩
  · refine ⟨map_fst_stages limit rs t, fun _ _ _ _ h => before_of_stages h, ?_,
      runAll_stages limit rs t⟩
    intro report hreport
    obtain ⟨⟨r, u⟩, _, rfl⟩ := List.mem_map.mp hreport
    rw [(run_eq_applications r limit u).2.1]
    exact length_applicationsFrom_le limit _ u

/-- In `(S A)` the one `A` is deleted. A limit of none is reached, and nothing is done under it. -/
theorem run_limited_deleting :
    let t := Tree.ofConstituent (some (.node "S" [.node "A" []]))
    let p : Pattern :=
      ⟨"A=a", .mk ⟨false, .oneOf [.literal "A"], []⟩ (some 0) none, ["a"], [true], []⟩
    let r : Rule := ⟨p, ⟨"delete a", [.delete ["a"]], []⟩⟩
    0 ≤ 1 ∧ r.applications 0 t = (r.applications 1 t).take 0 ∧
      (r.run 0 t).1 = t ∧ (r.run 0 t).2.limitReached = true ∧
      (r.run 1 t).2.applications ≤ 1 := by
  intro t p r
  have ht : t.WellFormed := Tree.wellFormed_ofConstituent _
  obtain ⟨htake, _, hruns, _⟩ := run_limited r (k := 0) (m := 1) (by decide) t
  obtain ⟨_, _, _, _, e, hreaches, hlimit, _⟩ := hruns 0
  obtain ⟨_, hcount, hle, _⟩ := hruns 1
  have hnone : r.applications 0 t = [] := htake
  rw [hnone] at hreaches
  obtain ⟨hstart, hsame⟩ := hreaches.unique .refl
  have hnext : ((Enumeration.start p .allBindings t).next t).1 = some ⟨1, [some 1], ["a"]⟩ := by
    rw [next_start ht]
    decide
  refine ⟨by decide, htake, hsame, hlimit.mpr ?_, hcount ▸ hle⟩
  rw [hstart, hsame]
  exact ⟨by decide, _, _, Prod.ext hnext rfl⟩

end Rule

end Constituency
