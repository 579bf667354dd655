import Constituency.Proofs.Renumbering.Resuming
import Constituency.Proofs.Surgery.Process

/-!
# No match is left out

A process begins to enumerate matches anew whenever it has changed the structure of the tree, and
otherwise goes on. Here it is shown that this leaves out no match and takes none twice. After the
last change of structure the matches are those of the tree as it was then, one after the other, if
labels stay as well (`run_exhausts`). If every application changes the structure, no match is left.

The applications of a process are recorded in `applications`, each with the tree that it found. A
process that is not stopped by its limit is described by `Runs`, and has two parts: up to the last
change of structure, whatever happens there, and from then on. The second part is a process on its
own that begins with all matches (`Runs.split`), and in it the tree shows the same all the time.
What it makes of the matches is the induction that `Resumes` was made for (`Runs.resumed`).
-/

namespace Constituency

open Constituency.Tree

/-- One application of a script: the tree that it found and the match that it was made for. -/
structure Application where
  before : Tree
  matched : Match

namespace Rule

variable (r : Rule)

/-- What an application comes to. -/
def outcome (a : Application) : Outcome := r.script.apply a.before a.matched

/-- The tree that applications leave behind. -/
def treeAfter (t : Tree) (as : List Application) : Tree :=
  as.foldl (fun _ a => (r.outcome a).tree) t

/-- Whether the attached nodes of the tree had the same labels before and after an application. -/
def KeepsLabels (a : Application) : Prop :=
  ∀ n ∈ a.before.attached, (r.outcome a).tree.label n = a.before.label n

/-- The enumeration that goes on after an application. -/
def resume (o : Outcome) (e : Enumeration) : Enumeration :=
  if o.restructured then .start r.pattern .allBindings o.tree else e

/-- The applications to the matches still to come, at most `limit` of them. -/
def applicationsFrom : Nat → Enumeration → Tree → List Application
  | limit, e, t =>
    if t.isEmpty then []
    else
      match limit, e.next t with
      | _, (none, _) => []
      | 0, (some _, _) => []
      | limit + 1, (some m, e) =>
        let o := r.outcome ⟨t, m⟩
        ⟨t, m⟩ :: applicationsFrom limit (r.resume o e) o.tree

/-- The applications to the matches in a tree, at most `limit` of them. -/
def applications (limit : Nat) (t : Tree) : List Application :=
  r.applicationsFrom limit (.start r.pattern .allBindings t) t

/-! ## The report of a process -/

section report

variable {r : Rule} {e e' : Enumeration} {t : Tree} {m : Match}

theorem runFrom_done (limit : Nat) (h : t.isEmpty = true ∨ (e.next t).1 = none) :
    r.runFrom limit e t = (t, .nothing) ∧ r.applicationsFrom limit e t = [] := by
  unfold runFrom applicationsFrom
  by_cases hempty : t.isEmpty = true
  · rw [if_pos hempty, if_pos hempty]
    exact ⟨rfl, rfl⟩
  · rw [if_neg hempty, if_neg hempty]
    have hnone := h.resolve_left hempty
    rcases hnext : e.next t with ⟨_ | m, e'⟩
    · cases limit <;> exact ⟨rfl, rfl⟩
    · rw [hnext] at hnone
      exact absurd hnone (by simp)

theorem runFrom_stopped (hempty : t.isEmpty = false) (hnext : e.next t = (some m, e')) :
    r.runFrom 0 e t = (t, { Report.nothing with limitReached := true }) ∧
      r.applicationsFrom 0 e t = [] := by
  unfold runFrom applicationsFrom
  rw [hempty, hnext]
  exact ⟨rfl, rfl⟩

theorem runFrom_step (limit : Nat) (hempty : t.isEmpty = false) (hnext : e.next t = (some m, e')) :
    let o := r.outcome ⟨t, m⟩
    r.runFrom (limit + 1) e t = ((r.runFrom limit (r.resume o e') o.tree).1,
        ⟨1, o.diagnostics, false⟩ ++ (r.runFrom limit (r.resume o e') o.tree).2) ∧
      r.applicationsFrom (limit + 1) e t =
        ⟨t, m⟩ :: r.applicationsFrom limit (r.resume o e') o.tree := by
  intro o
  rw [runFrom.eq_def r (limit + 1), applicationsFrom.eq_def r (limit + 1)]
  dsimp only
  rw [hempty, hnext]
  exact ⟨rfl, rfl⟩

/-- What a process does next. -/
theorem next_cases (e : Enumeration) (t : Tree) : (t.isEmpty = true ∨ (e.next t).1 = none) ∨
    t.isEmpty = false ∧ ∃ m e', e.next t = (some m, e') := by
  cases hempty : t.isEmpty with
  | true => exact .inl (.inl rfl)
  | false =>
    rcases hnext : e.next t with ⟨_ | m, e'⟩
    · exact .inl (.inr rfl)
    · exact .inr ⟨rfl, m, e', rfl⟩

theorem runFrom_eq_applications (limit : Nat) (e : Enumeration) (t : Tree) :
    (r.runFrom limit e t).1 = r.treeAfter t (r.applicationsFrom limit e t) ∧
      (r.runFrom limit e t).2.applications = (r.applicationsFrom limit e t).length ∧
      (r.runFrom limit e t).2.diagnostics =
        (r.applicationsFrom limit e t).flatMap (r.outcome · |>.diagnostics) ∧
      ∀ front a back, r.applicationsFrom limit e t = front ++ a :: back →
        a.before = r.treeAfter t front := by
  have hnone : ∀ front a back, ([] : List Application) = front ++ a :: back →
      a.before = r.treeAfter t front := fun _ _ _ h => absurd h (by simp)
  induction limit generalizing e t with
  | zero =>
    rcases next_cases e t with hdone | ⟨hempty, m, e', hnext⟩
    · rw [(runFrom_done 0 hdone).1, (runFrom_done 0 hdone).2]
      exact ⟨rfl, rfl, rfl, hnone⟩
    · rw [(runFrom_stopped hempty hnext).1, (runFrom_stopped hempty hnext).2]
      exact ⟨rfl, rfl, rfl, hnone⟩
  | succ limit ih =>
    rcases next_cases e t with hdone | ⟨hempty, m, e', hnext⟩
    · rw [(runFrom_done _ hdone).1, (runFrom_done _ hdone).2]
      exact ⟨rfl, rfl, rfl, hnone⟩
    · obtain ⟨htree, hcount, hreports, hchain⟩ := ih (r.resume (r.outcome ⟨t, m⟩) e')
        (r.outcome ⟨t, m⟩).tree fun _ _ _ h => absurd h (by simp)
      rw [(runFrom_step limit hempty hnext).1, (runFrom_step limit hempty hnext).2]
      refine ⟨htree, ?_, ?_, ?_⟩
      · exact (congrArg (1 + ·) hcount).trans (Nat.add_comm ..)
      · exact congrArg ((r.outcome ⟨t, m⟩).diagnostics ++ ·) hreports
      · intro front a back hsplit
        cases front with
        | nil =>
          obtain ⟨rfl, _⟩ := List.cons.inj hsplit
          rfl
        | cons b front =>
          obtain ⟨rfl, hrest⟩ := List.cons.inj hsplit
          exact hchain front a back hrest

/-- A process whose applications leave the tree as it is goes through the matches in it. -/
theorem runFrom_of_unchanged {limit : Nat} (hempty : t.isEmpty = false)
    (hleaves : ∀ m ∈ e.remaining t,
      (r.outcome ⟨t, m⟩).tree = t ∧ (r.outcome ⟨t, m⟩).restructured = false)
    (hlimit : (e.remaining t).length ≤ limit) :
    (r.runFrom limit e t).2.limitReached = false ∧
      r.applicationsFrom limit e t = (e.remaining t).map (⟨t, ·⟩) := by
  induction limit generalizing e with
  | zero =>
    have hnone := List.eq_nil_of_length_eq_zero (Nat.le_zero.mp hlimit)
    rcases next_cases e t with hdone | ⟨-, m, e', hnext⟩
    · rw [(runFrom_done 0 hdone).1, (runFrom_done 0 hdone).2, hnone]
      exact ⟨rfl, rfl⟩
    · rw [Enumeration.remaining_of_next hnext] at hnone
      exact absurd hnone (by simp)
  | succ limit ih =>
    rcases next_cases e t with hdone | ⟨-, m, e', hnext⟩
    · have hnone : e.remaining t = [] := by
        have hsilent := hdone.resolve_left (by rw [hempty]; exact Bool.false_ne_true)
        exact Enumeration.remaining_of_next_none (Prod.ext hsilent rfl)
      rw [(runFrom_done _ hdone).1, (runFrom_done _ hdone).2, hnone]
      exact ⟨rfl, rfl⟩
    · rw [Enumeration.remaining_of_next hnext] at hleaves hlimit ⊢
      obtain ⟨⟨htree, hquiet⟩, hlater⟩ := List.forall_mem_cons.mp hleaves
      obtain ⟨hreport, hrecord⟩ := ih hlater (Nat.le_of_succ_le_succ hlimit)
      have hresume : r.resume (r.outcome ⟨t, m⟩) e' = e' := if_neg (Bool.eq_false_iff.mp hquiet)
      obtain ⟨hstep, hnow⟩ := runFrom_step (r := r) limit hempty hnext
      rw [hresume, htree] at hstep hnow
      rw [hstep, hnow, hrecord]
      exact ⟨hreport, rfl⟩

/-- **The record of a process is what it reports**, and every application finds the tree as the ones
before it left it. -/
theorem run_eq_applications (r : Rule) (limit : Nat) (t : Tree) :
    (r.run limit t).1 = r.treeAfter t (r.applications limit t) ∧
      (r.run limit t).2.applications = (r.applications limit t).length ∧
      (r.run limit t).2.diagnostics =
        (r.applications limit t).flatMap (r.outcome · |>.diagnostics) ∧
      ∀ front a back, r.applications limit t = front ++ a :: back →
        a.before = r.treeAfter t front :=
  runFrom_eq_applications limit _ t

end report

/-! ## Processes that come to an end -/

/-- From a tree and an enumeration, applications lead to a tree where no match is left to come. -/
inductive Runs : Enumeration → Tree → List Application → Tree → Prop where
  | empty {e : Enumeration} {t : Tree} : t.isEmpty = true → Runs e t [] t
  | exhausted {e : Enumeration} {t : Tree} : (e.next t).1 = none → Runs e t [] t
  | step {e e' : Enumeration} {t u : Tree} {m : Match} {as : List Application} :
    e.next t = (some m, e') →
    Runs (r.resume (r.outcome ⟨t, m⟩) e') (r.outcome ⟨t, m⟩).tree as u →
    Runs e t (⟨t, m⟩ :: as) u

variable {r} {limit : Nat} {e : Enumeration} {c : Enumeration} {t u v : Tree}
  {as : List Application}

theorem runs_of_not_limitReached (h : (r.runFrom limit e t).2.limitReached = false) :
    r.Runs e t (r.applicationsFrom limit e t) (r.runFrom limit e t).1 := by
  have hdone : ∀ {limit e t}, (t.isEmpty = true ∨ (e.next t).1 = none) →
      r.Runs e t (r.applicationsFrom limit e t) (r.runFrom limit e t).1 := by
    intro limit e t hdone
    rw [(runFrom_done limit hdone).1, (runFrom_done limit hdone).2]
    exact hdone.elim .empty .exhausted
  induction limit generalizing e t with
  | zero =>
    rcases next_cases e t with hend | ⟨hempty, m, e', hnext⟩
    · exact hdone hend
    · rw [(runFrom_stopped hempty hnext).1] at h
      exact absurd h (by simp)
  | succ limit ih =>
    rcases next_cases e t with hend | ⟨hempty, m, e', hnext⟩
    · exact hdone hend
    · rw [(runFrom_step limit hempty hnext).1] at h ⊢
      rw [(runFrom_step limit hempty hnext).2]
      exact .step hnext (ih h)

theorem resume_of_restructured {o : Outcome} (h : o.restructured = true) :
    r.resume o e = .start r.pattern .allBindings o.tree := if_pos h

theorem resume_of_not_restructured {o : Outcome} (h : o.restructured = false) :
    r.resume o e = e := if_neg (Bool.eq_false_iff.mp h)

/-- What an application leaves is well-formed, and the enumeration knows its way there. -/
theorem step_known (ht : t.WellFormed) (he : e.Known t.nodes.size) {m : Match} {e' : Enumeration}
    (hnext : e.next t = (some m, e')) :
    (r.outcome ⟨t, m⟩).tree.WellFormed ∧ Edits t (r.outcome ⟨t, m⟩).tree ∧
      e'.Known (r.outcome ⟨t, m⟩).tree.nodes.size := by
  obtain ⟨hm, he'⟩ := Enumeration.next_known ht he hnext
  have hedits := (r.script.apply_processed ht hm).edits
  obtain ⟨hwf, hsize⟩ := ht.edits hedits
  exact ⟨hwf, hedits, he'.mono hsize⟩

/-- **A process begins anew with its last change of structure**, if there is one. -/
theorem Runs.split (h : r.Runs e t as u) (ht : t.WellFormed) (he : e.Known t.nodes.size) :
    (∀ a ∈ as, (r.outcome a).restructured = false) ∨
      ∃ front a back, as = front ++ a :: back ∧ (r.outcome a).restructured = true ∧
        (∀ b ∈ back, (r.outcome b).restructured = false) ∧
        (r.outcome a).tree.WellFormed ∧
        r.Runs (.start r.pattern .allBindings (r.outcome a).tree) (r.outcome a).tree back u := by
  induction h with
  | empty _ => exact .inl fun _ ha => absurd ha (by simp)
  | exhausted _ => exact .inl fun _ ha => absurd ha (by simp)
  | @step e e' t u m as hnext hrest ih =>
    obtain ⟨hwf, _, he'⟩ := step_known (r := r) ht he hnext
    have hresume : (r.resume (r.outcome ⟨t, m⟩) e').Known (r.outcome ⟨t, m⟩).tree.nodes.size := by
      unfold resume
      split
      · exact Enumeration.start_known hwf r.pattern .allBindings
      · exact he'
    rcases ih hwf hresume with hquiet | ⟨front, a, back, rfl, ha, hback, hafter, hruns⟩
    · cases hrestructured : (r.outcome ⟨t, m⟩).restructured with
      | true =>
        rw [resume_of_restructured hrestructured] at hrest
        exact .inr ⟨[], ⟨t, m⟩, as, rfl, hrestructured, hquiet, hwf, hrest⟩
      | false => exact .inl (List.forall_mem_cons.mpr ⟨hrestructured, hquiet⟩)
    · exact .inr ⟨⟨t, m⟩ :: front, a, back, rfl, ha, hback, hafter, hruns⟩

/-- An application that changes neither the structure nor a label leaves a tree that shows the
same. -/
theorem sameShown_of_quiet (ht : t.WellFormed) {m : Match}
    (hedits : Edits t (r.outcome ⟨t, m⟩).tree)
    (hquiet : (r.outcome ⟨t, m⟩).restructured = false) (hlabels : r.KeepsLabels ⟨t, m⟩) :
    (r.outcome ⟨t, m⟩).tree.revision = t.revision ∧ SameShown t (r.outcome ⟨t, m⟩).tree := by
  have hrevision : (r.outcome ⟨t, m⟩).tree.revision = t.revision := by
    by_contra hne
    exact absurd (bne_iff_ne.mpr hne) (Bool.eq_false_iff.mp hquiet)
  exact ⟨hrevision, hedits.sameAttached ht hrevision, hlabels⟩

/-- **Applications that change nothing that is shown go through the matches** of the tree where the
enumeration began. -/
theorem Runs.resumed (h : r.Runs e u as v) (ht : t.WellFormed) (hu : u.WellFormed)
    (hresumes : Resumes t u c e) (he : e.Known u.nodes.size)
    (hquiet : ∀ a ∈ as, (r.outcome a).restructured = false)
    (hlabels : ∀ a ∈ as, r.KeepsLabels a) :
    as.map Application.matched = (c.remaining t.compact).map (Match.renumber t.numbering) ∧
      SameShown t v := by
  induction h generalizing c with
  | empty hempty => exact ⟨by rw [hresumes.remaining_of_isEmpty hempty]; rfl, hresumes.shown⟩
  | @exhausted e u hnone =>
    refine ⟨?_, hresumes.shown⟩
    have hnone' := hresumes.next_none ht hu hnone
    rw [Enumeration.remaining_of_next_none (Prod.ext hnone' rfl)]
    rfl
  | @step e e' u v m as hnext hrest ih =>
    obtain ⟨hquiet, hquiet'⟩ := List.forall_mem_cons.mp hquiet
    obtain ⟨hlabels, hlabels'⟩ := List.forall_mem_cons.mp hlabels
    obtain ⟨hwf, hedits, he'⟩ := step_known (r := r) hu he hnext
    obtain ⟨hrevision, hshown⟩ := sameShown_of_quiet hu hedits hquiet hlabels
    obtain ⟨m₀, c', hnext₀, hm, hresumes'⟩ := hresumes.next_some ht hu hnext
    rw [resume_of_not_restructured hquiet] at ih
    obtain ⟨hmatches, hend⟩ :=
      ih hwf (hresumes'.later ht hu hwf hshown hrevision) he' hquiet' hlabels'
    refine ⟨?_, hend⟩
    rw [Enumeration.remaining_of_next hnext₀, List.map_cons, List.map_cons, hmatches]
    exact congrArg (· :: _) hm

/-- A process without changes of structure or labels takes all matches of its tree. -/
theorem Runs.matches_eq_search (h : r.Runs (.start r.pattern .allBindings t) t as u)
    (ht : t.WellFormed) (hquiet : ∀ a ∈ as, (r.outcome a).restructured = false)
    (hlabels : ∀ a ∈ as, r.KeepsLabels a) :
    as.map Application.matched = r.pattern.search .allBindings t ∧ SameShown t u := by
  have hknown := Enumeration.start_known ht r.pattern .allBindings
  rw [r.pattern.search_renumber ht.twins]
  exact h.resumed ht ht (.start ht r.pattern .allBindings) hknown hquiet hlabels

/-- **A process that is not stopped by its limit leaves out no match.**

Let the applications be split behind the last one that changed the structure, and let `T` be the
tree there. If no label of an attached node was changed from there on, then the matches from there
on are those of the pattern in `T`, each once and in order, and `T` is what the process leaves. If
every application changes the structure, the pattern has no match in what the process leaves. -/
theorem run_exhausts (r : Rule) (limit : Nat) (ht : t.WellFormed)
    (hlimit : (r.run limit t).2.limitReached = false) :
    (∃ front back, r.applications limit t = front ++ back ∧
      (∀ a, front.getLast? = some a → (r.outcome a).restructured = true) ∧
      (∀ a ∈ back, (r.outcome a).restructured = false) ∧
      ((∀ a ∈ back, r.KeepsLabels a) →
        back.map Application.matched = r.pattern.search .allBindings (r.treeAfter t front) ∧
        (back.map Application.matched).Nodup ∧
        SameShown (r.treeAfter t front) (r.run limit t).1)) ∧
    ((∀ a ∈ r.applications limit t, (r.outcome a).restructured = true) →
      r.pattern.search .allBindings (r.run limit t).1 = []) := by
  have hruns : r.Runs (.start r.pattern .allBindings t) t (r.applications limit t)
      (r.run limit t).1 := runs_of_not_limitReached hlimit
  have hsplit : ∃ front back, r.applications limit t = front ++ back ∧
      (∀ a, front.getLast? = some a → (r.outcome a).restructured = true) ∧
      (∀ a ∈ back, (r.outcome a).restructured = false) ∧ (r.treeAfter t front).WellFormed ∧
      r.Runs (.start r.pattern .allBindings (r.treeAfter t front)) (r.treeAfter t front) back
        (r.run limit t).1 := by
    rcases hruns.split ht (Enumeration.start_known ht r.pattern .allBindings) with
      hquiet | ⟨front, a, back, hsplit, ha, hquiet, hwf, hback⟩
    · exact ⟨[], _, rfl, fun _ ha => absurd ha (by simp), hquiet, ht, hruns⟩
    · have hafter : r.treeAfter t (front ++ [a]) = (r.outcome a).tree := List.foldl_concat ..
      refine ⟨front ++ [a], back, ?_, fun b hb => ?_, hquiet, ?_, ?_⟩
      · rw [hsplit, List.append_assoc, List.singleton_append]
      · rw [List.getLast?_concat] at hb
        rwa [← Option.some.inj hb]
      · rwa [hafter]
      · rwa [hafter]
  obtain ⟨front, back, hsplit, hfront, hquiet, hwf, hback⟩ := hsplit
  constructor
  · refine ⟨front, back, hsplit, hfront, hquiet, fun hlabels => ?_⟩
    obtain ⟨hmatches, hshown⟩ := hback.matches_eq_search hwf hquiet hlabels
    exact ⟨hmatches, hmatches ▸ r.pattern.search_nodup hwf .allBindings, hshown⟩
  · -- then nothing comes after the last change of structure
    intro hall
    have hnone : back = [] := by
      refine List.eq_nil_iff_forall_not_mem.mpr fun a ha => ?_
      have hrestructured := hall a (hsplit ▸ List.mem_append_right front ha)
      rw [hquiet a ha] at hrestructured
      exact absurd hrestructured Bool.false_ne_true
    subst hnone
    rw [List.append_nil] at hsplit
    rw [(run_eq_applications r limit t).1, hsplit]
    exact (hback.matches_eq_search hwf hquiet fun _ ha => absurd ha (by simp)).1.symm

/-- A process begins with the first match at an attached node. -/
theorem next_start (ht : t.WellFormed) (p : Pattern) :
    ((Enumeration.start p .allBindings t).next t).1 =
      (t.attached.flatMap ((Enumeration.start p .allBindings t).matchesAt t)).head? := by
  rw [← p.search_eq_flatMap ht, Pattern.search, Enumeration.remaining]
  rcases (Enumeration.start p .allBindings t).next t with ⟨_ | m, e'⟩ <;> rfl

/-- A process whose first application changes the structure and whose later ones change nothing. -/
theorem run_of_restructured_once (limit : Nat) {m : Match} {u : Tree}
    (hempty : t.isEmpty = false)
    (hfirst : ((Enumeration.start r.pattern .allBindings t).next t).1 = some m)
    (hu : (r.outcome ⟨t, m⟩).tree = u) (hrestructured : (r.outcome ⟨t, m⟩).restructured = true)
    (hempty' : u.isEmpty = false)
    (hleaves : ∀ m ∈ r.pattern.search .allBindings u,
      (r.outcome ⟨u, m⟩).tree = u ∧ (r.outcome ⟨u, m⟩).restructured = false)
    (hlimit : (r.pattern.search .allBindings u).length ≤ limit) :
    (r.run (limit + 1) t).2.limitReached = false ∧
      r.applications (limit + 1) t =
        ⟨t, m⟩ :: (r.pattern.search .allBindings u).map (⟨u, ·⟩) := by
  obtain ⟨hrun, hrecord⟩ := runFrom_step (r := r) limit hempty (Prod.ext hfirst rfl)
  rw [resume_of_restructured hrestructured, hu] at hrun hrecord
  obtain ⟨hreport, hlater⟩ := runFrom_of_unchanged hempty' hleaves hlimit
  rw [run, applications, hrun, hrecord, hlater]
  exact ⟨hreport, rfl⟩

/-- There is one way to split applications behind the last change of structure, if that is the
first of them. -/
theorem split_eq {a : Application} {front back : List Application}
    (hsplit : a :: as = front ++ back) (ha : (r.outcome a).restructured = true)
    (has : ∀ b ∈ as, (r.outcome b).restructured = false)
    (hfront : ∀ b, front.getLast? = some b → (r.outcome b).restructured = true)
    (hback : ∀ b ∈ back, (r.outcome b).restructured = false) : front = [a] ∧ back = as := by
  cases front with
  | nil =>
    obtain rfl : a :: as = back := hsplit
    have hquiet := hback a (List.mem_cons_self ..)
    rw [ha] at hquiet
    exact absurd hquiet (by simp)
  | cons b front =>
    obtain ⟨rfl, rfl⟩ := List.cons.inj hsplit
    rcases List.eq_nil_or_concat front with rfl | ⟨front, c, rfl⟩
    · exact ⟨rfl, rfl⟩
    · have hlast := hfront c (by
        rw [List.concat_eq_append, ← List.cons_append, List.getLast?_concat])
      rw [has c (by simp)] at hlast
      exact absurd hlast (by simp)

/-- In `(S A)` the `A` is deleted, after which the matches are enumerated anew; there is none. In
`(S (A B) A)` the `B` is deleted, after which there is a match at each `A` that changes nothing. -/
theorem run_exhausts_deleting :
    let t := Tree.ofConstituent (some (.node "S" [.node "A" []]))
    let p : Pattern :=
      ⟨"A=a", .mk ⟨false, .oneOf [.literal "A"], []⟩ (some 0) none, ["a"], [true], []⟩
    let r : Rule := ⟨p, ⟨"delete a", [.delete ["a"]], []⟩⟩
    let t' := Tree.ofConstituent (some (.node "S" [.node "A" [.node "B" []], .node "A" []]))
    let b : NodePattern := .mk ⟨false, .oneOf [.literal "B"], []⟩ (some 1) none
    let q : Pattern := ⟨"A=a ?< B=b", .mk ⟨false, .oneOf [.literal "A"], []⟩ (some 0)
      (some (.optional (.related .parentOf b))), ["a", "b"], [true, true], []⟩
    let r' : Rule := ⟨q, ⟨"if exists b delete b", [.ifExists "b" false (.delete ["b"])], []⟩⟩
    (t.WellFormed ∧ (r.run 1 t).2.limitReached = false ∧
      r.applications 1 t = [⟨t, ⟨1, [some 1], ["a"]⟩⟩] ∧
      (r.outcome ⟨t, ⟨1, [some 1], ["a"]⟩⟩).restructured = true ∧
      p.search .allBindings (r.run 1 t).1 = []) ∧
    t'.WellFormed ∧ (r'.run 3 t').2.limitReached = false ∧
      ∃ front back, r'.applications 3 t' = front ++ back ∧
        front.map Application.matched = [⟨1, [some 1, some 2], ["a", "b"]⟩] ∧
        back.map Application.matched =
          [⟨1, [some 1, none], ["a", "b"]⟩, ⟨3, [some 3, none], ["a", "b"]⟩] ∧
        back.map Application.matched = q.search .allBindings (r'.treeAfter t' front) ∧
        SameShown (r'.treeAfter t' front) (r'.run 3 t').1 := by
  intro t p r t' b q r'
  constructor
  · let m : Match := ⟨1, [some 1], ["a"]⟩
    let u := (r.outcome ⟨t, m⟩).tree
    have ht : t.WellFormed := Tree.wellFormed_ofConstituent _
    have hm : m.Known t.nodes.size :=
      ⟨by decide, fun x hx => Option.some.inj (List.mem_singleton.mp hx) ▸ by decide⟩
    have hu : u.WellFormed := (ht.edits (r.script.apply_processed ht hm).edits).1
    have hrestructured : (r.outcome ⟨t, m⟩).restructured = true := by decide
    have hfirst : ((Enumeration.start p .allBindings t).next t).1 = some m := by
      rw [next_start ht]
      decide
    have hnone : p.search .allBindings u = [] := by
      rw [p.search_eq_flatMap hu]
      decide
    obtain ⟨hlimit, hrecord⟩ := run_of_restructured_once (r := r) (u := u) 0 (by decide)
      hfirst rfl hrestructured (by decide) (hnone ▸ fun _ hm => absurd hm (by simp))
      (by rw [hnone]; decide)
    rw [hnone] at hrecord
    refine ⟨ht, hlimit, hrecord, hrestructured, (run_exhausts r 1 ht hlimit).2 fun a ha => ?_⟩
    rw [hrecord] at ha
    rwa [List.mem_singleton.mp ha]
  · let m : Match := ⟨1, [some 1, some 2], ["a", "b"]⟩
    let ms : List Match := [⟨1, [some 1, none], ["a", "b"]⟩, ⟨3, [some 3, none], ["a", "b"]⟩]
    let u := (r'.outcome ⟨t', m⟩).tree
    have ht : t'.WellFormed := Tree.wellFormed_ofConstituent _
    have hm : m.Known t'.nodes.size := by
      refine ⟨by decide, fun x hx => ?_⟩
      rcases List.mem_pair.mp hx with hx | hx
      all_goals exact Option.some.inj hx ▸ by decide
    have hu : u.WellFormed := (ht.edits (r'.script.apply_processed ht hm).edits).1
    have hrestructured : (r'.outcome ⟨t', m⟩).restructured = true := by decide
    have hfirst : ((Enumeration.start q .allBindings t').next t').1 = some m := by
      rw [next_start ht]
      decide
    have hlater : q.search .allBindings u = ms := by
      rw [q.search_eq_flatMap hu]
      decide
    have hleaves : ∀ m ∈ ms, (r'.outcome ⟨u, m⟩).tree = u ∧
        (r'.outcome ⟨u, m⟩).restructured = false := by
      intro m hm
      rcases List.mem_pair.mp hm with rfl | rfl
      all_goals exact ⟨rfl, by decide⟩
    obtain ⟨hlimit, hrecord⟩ := run_of_restructured_once (r := r') (u := u) 2 (by decide)
      hfirst rfl hrestructured (by decide) (hlater ▸ hleaves) (by rw [hlater]; decide)
    rw [hlater] at hrecord
    obtain ⟨front, back, hsplit, hfront, hback, hmatches⟩ := (run_exhausts r' 3 ht hlimit).1
    obtain ⟨rfl, rfl⟩ := split_eq (hrecord.symm.trans hsplit) hrestructured
      (List.forall_mem_map.mpr fun m hm => (hleaves m hm).2) hfront hback
    have hlabels : ∀ a ∈ ms.map (⟨u, ·⟩), r'.KeepsLabels a :=
      List.forall_mem_map.mpr fun m hm n _ => congrArg (Tree.label · n) (hleaves m hm).1
    obtain ⟨hsearch, -, hshown⟩ := hmatches hlabels
    exact ⟨ht, hlimit, _, _, hsplit, rfl, rfl, hsearch, hshown⟩

end Rule

end Constituency
