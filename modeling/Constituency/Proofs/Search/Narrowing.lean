import Constituency.Proofs.Pattern.Captures
import Constituency.Proofs.Search.Calls

/-!
# Roots by label

Where the root of a pattern accepts only given labels, the index supplies the roots that an
enumeration has to try. The index tells what labels were when the enumeration began, while a node is
tested when its turn comes. In a tree that has been relabelled in between, an enumeration of all
attached nodes may therefore report matches at roots that the index left out.

Calls of the narrowed enumeration do what calls of the other do when matches at such roots are
passed over (`nextAmong`). While this happens the two are in different states, one of them being
busy with a root that the other does not have. Before and after each call they agree on the root
that is being tried, and the roots to come are those of the other that were kept (`Narrows`).
-/

namespace Constituency

namespace Enumeration

/-- An enumeration with all attached nodes before it, whatever the root of its pattern accepts. -/
def startAttached (p : Pattern) (mode : Mode) (t : Tree) : Enumeration :=
  { start p mode t with roots := t.attached }

/-- The next match at one of some roots; those at others are passed over. -/
def nextAmong (keep : NodeId → Bool) (t : Tree) (e : Enumeration) : Option Match × Enumeration :=
  match _h : e.next t with
  | (none, e') => (none, e')
  | (some m, e') => if keep m.root then (some m, e') else nextAmong keep t e'
termination_by (e.roots.length, e.row)
decreasing_by exact next_decreases _h

/-- The answers to calls that pass over the matches at other roots. -/
def answersAmong (keep : NodeId → Bool) (e : Enumeration) : List Tree → List (Option Match)
  | [] => []
  | t :: ts => (e.nextAmong keep t).1 :: (e.nextAmong keep t).2.answersAmong keep ts

variable {keep : NodeId → Bool} {e f f' : Enumeration} {t : Tree} {ts : List Tree} {m : Match}

theorem nextAmong_of_silent (h : f.next t = (none, f')) : f.nextAmong keep t = (none, f') := by
  rw [nextAmong, h]

theorem nextAmong_of_kept (h : f.next t = (some m, f')) (hm : keep m.root = true) :
    f.nextAmong keep t = (some m, f') := by
  rw [nextAmong, h]
  exact if_pos hm

theorem nextAmong_of_dropped (h : f.next t = (some m, f')) (hm : keep m.root = false) :
    f.nextAmong keep t = f'.nextAmong keep t := by
  rw [nextAmong, h]
  exact if_neg (by rw [hm]; exact Bool.false_ne_true)

theorem nextAmong_kept (h : (f.nextAmong keep t).1 = some m) : keep m.root = true := by
  induction f using nextAmong.induct keep t with
  | case1 f f' hnext =>
    rw [nextAmong_of_silent hnext] at h
    exact absurd h (by simp)
  | case2 f m' f' hnext hkeep =>
    rw [nextAmong_of_kept hnext hkeep] at h
    exact Option.some.inj h ▸ hkeep
  | case3 f m' f' hnext hkeep ih =>
    rw [nextAmong_of_dropped hnext (Bool.eq_false_iff.mpr hkeep)] at h
    exact ih h

/-! ## Enumerations that agree on the roots that are kept -/

/-- The first enumeration has the roots of the second that are kept, and is at the same one. -/
structure Narrows (keep : NodeId → Bool) (e f : Enumeration) : Prop where
  alike : Alike f e
  roots : e.roots = f.roots.filter keep
  current : e.current = f.current
  kept : ∀ root machine, f.current = some (root, machine) → keep root = true
  seen : f.current ≠ none → e.seen = f.seen

/-- Equal answers, and enumerations left behind that agree. -/
structure Agrees (keep : NodeId → Bool) (x y : Option Match × Enumeration) : Prop where
  answer : x.1 = y.1
  narrows : Narrows keep x.2 y.2

theorem Alike.leave (h : Alike f e) (m : Match) (left : Machine) :
    Alike (f.leave m left) (e.leave m left) :=
  ⟨h.pattern, h.mode, h.index, h.revision, h.stale⟩

theorem Alike.scene (h : Alike f e) (t : Tree) : e.scene t = f.scene t := by
  rw [Enumeration.scene, Enumeration.scene, h.pattern, h.index]

theorem Narrows.leave (h : Narrows keep e f) (hseen : e.seen = f.seen) (hm : keep m.root = true)
    (left : Machine) : Narrows keep (e.leave m left) (f.leave m left) := by
  refine ⟨h.alike.leave m left, h.roots, ?_, fun root machine hc => leave_current hc ▸ hm,
    fun _ => congrArg (m.bindings :: ·) hseen⟩
  unfold Enumeration.leave
  dsimp only
  rw [h.alike.mode]

/-- At the same root two enumerations find the same. -/
theorem Narrows.resume (h : Narrows keep e f) (t : Tree) :
    (f.resume t = none → e.resume t = none) ∧
      ∀ m f', f.resume t = some (m, f') → ∃ e', e.resume t = some (m, e') ∧ Narrows keep e' f' := by
  rw [resume_eq, resume_eq, h.current]
  cases hcurrent : f.current with
  | none => exact ⟨fun _ => rfl, fun m f' hm => absurd hm (by simp)⟩
  | some c =>
    have hseen : e.seen = f.seen := h.seen (by simp [hcurrent])
    rw [Option.bind_some, Option.bind_some, h.alike.scene, hseen]
    cases c.2.nextUnseen (f.scene t) f.seen with
    | none => exact ⟨fun _ => rfl, fun m f' hm => absurd hm (by simp)⟩
    | some x =>
      refine ⟨fun hm => absurd hm (by simp), fun m f' hm => ?_⟩
      obtain ⟨rfl, rfl⟩ := Prod.mk.inj (Option.some.inj hm)
      have hfound : e.found c.1 x.1 = f.found c.1 x.1 := by
        rw [found, found, h.alike.pattern]
      rw [Option.map_some, hfound]
      exact ⟨_, rfl, h.leave hseen (h.kept c.1 c.2 hcurrent) x.2⟩

/-- Two enumerations turn to a root that is kept. -/
theorem narrows_turnTo (h : Alike f e) {r : NodeId} (hr : keep r = true) (rs : List NodeId) :
    Narrows keep (e.turnTo r (rs.filter keep)) (f.turnTo r rs) := by
  refine ⟨⟨h.pattern, h.mode, h.index, h.revision, h.stale⟩, rfl, ?_, fun root machine hc => ?_,
    fun _ => rfl⟩
  · unfold turnTo
    dsimp only
    rw [h.pattern]
  · exact (Prod.mk.inj (Option.some.inj hc)).1 ▸ hr

/-- Trying the roots of both comes to the same until there is a match at a root that is not kept.
From there the roots behind it are left. -/
theorem tryRoots_narrows (h : Alike f e) (rs : List NodeId) :
    (∀ f', f.tryRoots t rs = (none, f') →
      Agrees keep (e.tryRoots t (rs.filter keep)) (none, f')) ∧
    (∀ m f', f.tryRoots t rs = (some m, f') → keep m.root = true →
      Agrees keep (e.tryRoots t (rs.filter keep)) (some m, f')) ∧
    ∀ m f', f.tryRoots t rs = (some m, f') → keep m.root = false →
      ∃ e', Alike f' e' ∧
        e.tryRoots t (rs.filter keep) = e'.tryRoots t (f'.roots.filter keep) := by
  induction rs generalizing e f with
  | nil =>
    refine ⟨fun f' hf => ?_, fun m f' hf => absurd (Prod.mk.inj hf).1 (by simp),
      fun m f' hf => absurd (Prod.mk.inj hf).1 (by simp)⟩
    obtain ⟨_, rfl⟩ := Prod.mk.inj hf
    exact ⟨rfl, ⟨h.pattern, h.mode, h.index, h.revision, h.stale⟩, rfl, rfl,
      fun _ _ hc => absurd hc (by simp), fun hne => absurd rfl hne⟩
  | cons r rs ih =>
    have hturned := f.alike_turnTo r rs
    cases hr : keep r with
    | true =>
      -- both turn to the root
      have hnarrows : Narrows keep (e.turnTo r (rs.filter keep)) (f.turnTo r rs) :=
        narrows_turnTo h hr rs
      obtain ⟨hnone, hsome⟩ := hnarrows.resume t
      rw [List.filter_cons_of_pos hr, tryRoots_cons, tryRoots_cons]
      cases hresume : (f.turnTo r rs).resume t with
      | none =>
        rw [hnone hresume]
        exact ih hnarrows.alike
      | some found =>
        obtain ⟨m, f₁⟩ := found
        obtain ⟨e₁, he₁, hnarrows₁⟩ := hsome m f₁ hresume
        obtain ⟨_, machine, left, hcurrent, _, _⟩ := resume_found hresume
        obtain ⟨hroot, _⟩ := Prod.mk.inj (Option.some.inj hcurrent)
        rw [he₁]
        refine ⟨fun f' hf => absurd (Prod.mk.inj hf).1 (by simp), fun m' f' hf _ => ?_,
          fun m' f' hf hdropped => ?_⟩
        · obtain ⟨hm, rfl⟩ := Prod.mk.inj hf
          exact ⟨hm, hnarrows₁⟩
        · obtain ⟨hm, _⟩ := Prod.mk.inj hf
          obtain rfl := Option.some.inj hm
          rw [← hroot, hr] at hdropped
          exact absurd hdropped (by simp)
    | false =>
      -- only one of them has the root
      have hsame : Alike (f.turnTo r rs) e := ⟨h.pattern, h.mode, h.index, h.revision, h.stale⟩
      rw [List.filter_cons_of_neg (by rw [hr]; exact Bool.false_ne_true), tryRoots_cons]
      cases hresume : (f.turnTo r rs).resume t with
      | none => exact ih hsame
      | some found =>
        obtain ⟨m, f₁⟩ := found
        obtain ⟨_, machine, left, hcurrent, _, rfl⟩ := resume_found hresume
        obtain ⟨hroot, _⟩ := Prod.mk.inj (Option.some.inj hcurrent)
        refine ⟨fun f' hf => absurd (Prod.mk.inj hf).1 (by simp), fun m' f' hf hkept => ?_,
          fun m' f' hf _ => ?_⟩
        · obtain ⟨hm, _⟩ := Prod.mk.inj hf
          obtain rfl := Option.some.inj hm
          rw [← hroot, hr] at hkept
          exact absurd hkept (by simp)
        · obtain ⟨_, rfl⟩ := Prod.mk.inj hf
          exact ⟨e, ⟨h.pattern, h.mode, h.index, h.revision, h.stale⟩, rfl⟩

/-- While one enumeration is busy with roots that are not kept, the other goes to the next of its
own. -/
theorem tryRoots_agrees (hstale : f.isStale t = false) (h : Alike f e)
    (hskip : ∀ m f', f.resume t = some (m, f') → keep m.root = false) :
    Agrees keep (e.tryRoots t (f.roots.filter keep)) (f.nextAmong keep t) := by
  induction f using nextAmong.induct keep t generalizing e with
  | case1 f f' hnext =>
    rw [nextAmong_of_silent hnext]
    cases hresume : f.resume t with
    | some x =>
      rw [next_of_resume_some hstale hresume] at hnext
      exact absurd (Prod.mk.inj hnext).1 (by simp)
    | none =>
      rw [next_of_resume_none hstale hresume] at hnext
      exact (tryRoots_narrows h f.roots).1 f' hnext
  | case2 f m f' hnext hkeep =>
    rw [nextAmong_of_kept hnext hkeep]
    cases hresume : f.resume t with
    | some x =>
      rw [next_of_resume_some hstale hresume] at hnext
      obtain ⟨hm, rfl⟩ := Prod.mk.inj hnext
      obtain rfl := Option.some.inj hm
      exact absurd (hkeep.symm.trans (hskip _ _ hresume)) (by simp)
    | none =>
      rw [next_of_resume_none hstale hresume] at hnext
      exact (tryRoots_narrows h f.roots).2.1 m f' hnext hkeep
  | case3 f m f' hnext hkeep ih =>
    have hdropped := Bool.eq_false_iff.mpr hkeep
    have hsame := (next_outstanding hstale hnext).1
    have hstale' := (hsame.isStale t).trans hstale
    have hskip' : ∀ m' f'', f'.resume t = some (m', f'') → keep m'.root = false := by
      intro m' f'' hresume
      obtain ⟨_, _, hreporting⟩ := next_reporting hnext
      obtain ⟨_, machine, _, hcurrent, _, _⟩ := resume_found hresume
      rw [hreporting.current_root hcurrent, hdropped]
    rw [nextAmong_of_dropped hnext hdropped]
    cases hresume : f.resume t with
    | some x =>
      rw [next_of_resume_some hstale hresume] at hnext
      obtain ⟨hm, rfl⟩ := Prod.mk.inj hnext
      obtain ⟨_, machine, left, _, _, hleft⟩ := resume_found hresume
      rw [hleft] at ih hstale' hskip' ⊢
      exact ih hstale' ⟨h.pattern, h.mode, h.index, h.revision, h.stale⟩ hskip'
    | none =>
      rw [next_of_resume_none hstale hresume] at hnext
      obtain ⟨e', he', htry⟩ := (tryRoots_narrows h f.roots).2.2 m f' hnext hdropped
      rw [htry]
      exact ih hstale' he' hskip'

/-- **A call of the narrowed enumeration does what a call that passes over other matches does.** -/
theorem Narrows.next (h : Narrows keep e f) (t : Tree) :
    Agrees keep (e.next t) (f.nextAmong keep t) := by
  cases hstale : f.isStale t with
  | true =>
    have hstale' := (h.alike.isStale t).trans hstale
    have hstopped : ∀ {x : Enumeration}, x.isStale t = true →
        x.next t = (none, { x with stale := true }) := fun hx => by
      rw [Enumeration.next, if_pos hx]
    rw [nextAmong_of_silent (hstopped hstale), hstopped hstale']
    exact ⟨rfl, ⟨h.alike.pattern, h.alike.mode, h.alike.index, h.alike.revision, rfl⟩, h.roots,
      h.current, h.kept, h.seen⟩
  | false =>
    have hstale' := (h.alike.isStale t).trans hstale
    obtain ⟨hnone, hsome⟩ := h.resume t
    cases hresume : f.resume t with
    | none =>
      rw [next_of_resume_none hstale' (hnone hresume), h.roots]
      exact tryRoots_agrees hstale h.alike fun m f' hm => absurd (hresume.symm.trans hm) (by simp)
    | some found =>
      obtain ⟨m, f'⟩ := found
      obtain ⟨e', he', hnarrows⟩ := hsome m f' hresume
      obtain ⟨_, machine, _, hroot, _, _⟩ := resume_found hresume
      rw [next_of_resume_some hstale' he',
        nextAmong_of_kept (next_of_resume_some hstale hresume) (h.kept _ _ hroot)]
      exact ⟨rfl, hnarrows⟩

theorem Narrows.answers (h : Narrows keep e f) (ts : List Tree) :
    e.answers ts = f.answersAmong keep ts := by
  induction ts generalizing e f with
  | nil => rfl
  | cons t ts ih =>
    obtain ⟨hanswer, hnarrows⟩ := h.next t
    rw [Enumeration.answers, answersAmong, hanswer, ih hnarrows]

/-! ## When nothing is passed over -/

/-- To pass over matches shows unless there are none to pass over. -/
theorem answersAmong_eq_iff :
    f.answersAmong keep ts = f.answers ts ↔ ∀ m ∈ f.reports ts, keep m.root = true := by
  induction ts generalizing f with
  | nil => exact ⟨fun _ m hm => absurd hm List.not_mem_nil, fun _ => rfl⟩
  | cons t ts ih =>
    rcases hnext : f.next t with ⟨_ | m, f'⟩
    · have hnone : (f.next t).1 = none := by rw [hnext]
      have hfinished : f'.Finished := by
        have hlater := finished_of_silent hnone
        rwa [hnext] at hlater
      have hrest : f'.answersAmong keep ts = f'.answers ts :=
        ih.mpr fun m hm => absurd hm (by rw [hfinished.reports]; exact List.not_mem_nil)
      rw [reports_cons_of_silent hnone, answersAmong, answers, nextAmong_of_silent hnext, hnext,
        hrest]
      exact ⟨fun _ m hm => absurd hm List.not_mem_nil, fun _ => rfl⟩
    · rw [reports_cons_of_next hnext, List.forall_mem_cons, answersAmong, answers]
      cases hkeep : keep m.root with
      | true =>
        rw [nextAmong_of_kept hnext hkeep, hnext, List.cons_inj_right, ih]
        exact ⟨fun h => ⟨rfl, h⟩, And.right⟩
      | false =>
        refine ⟨fun h => ?_, fun h => absurd h.1 (by simp)⟩
        have hfirst := (List.cons.inj h).1
        rw [hnext] at hfirst
        exact absurd ((nextAmong_kept hfirst).symm.trans hkeep) (by simp)

/-- **A match is reported at a root that had an accepted label at one of the calls**, if it is not
the root that was being tried before them. -/
theorem label_of_mem_reports {labels : List Label}
    (hlabels : literals? e.pattern.root.description = some labels) (h : m ∈ e.reports ts) :
    (∃ machine, e.current = some (m.root, machine)) ∨ ∃ t ∈ ts, t.label m.root ∈ labels := by
  induction ts generalizing e with
  | nil => exact absurd h List.not_mem_nil
  | cons t ts ih =>
    rcases hnext : e.next t with ⟨_ | first, e'⟩
    · rw [reports_cons_of_silent (by rw [hnext])] at h
      exact absurd h List.not_mem_nil
    · obtain ⟨hstale, _, hreporting⟩ := next_reporting hnext
      have hfirst : (∃ machine, e.current = some (first.root, machine)) ∨
          ∃ u ∈ t :: ts, u.label first.root ∈ labels := by
        cases hreporting with
        | resumed hcurrent _ => exact .inl ⟨_, hcurrent⟩
        | @turned skipped rest left _ hunseen =>
          refine .inr ⟨t, List.mem_cons_self .., ?_⟩
          by_contra hlabel
          -- a new machine has no answer where the root does not look as described
          have hdrop := (Machine.start e.pattern.root first.root
            e.pattern.names.length).nextUnseen_remaining (e.scene t) []
          rw [hunseen, Machine.remaining_start, solutions_of_not_holds] at hdrop
          · exact absurd hdrop (by simp)
          · exact Bool.eq_false_iff.mpr fun hholds => hlabel (label_mem_of_holds hlabels hholds)
      rw [reports_cons_of_next hnext] at h
      rcases List.mem_cons.mp h with rfl | h
      · exact hfirst
      · have hsame := (next_outstanding hstale hnext).1
        rcases ih (hsame.pattern ▸ hlabels) h with ⟨machine, hc⟩ | ⟨u, hu, hlabel⟩
        · rwa [hreporting.current_root hc]
        · exact .inr ⟨u, List.mem_cons_of_mem t hu, hlabel⟩

variable {t₀ : Tree} {p : Pattern} {labels : List Label}

theorem roots_start (h₀ : t₀.WellFormed) (hlabels : literals? p.root.description = some labels)
    (mode : Mode) :
    (start p mode t₀).roots = t₀.attached.filter fun r => t₀.label r ∈ labels := by
  show rootsOf p (Index.build t₀) = _
  rw [rootsOf, hlabels]
  exact roots_of_labels h₀ labels

theorem narrows_start (h₀ : t₀.WellFormed) (hlabels : literals? p.root.description = some labels)
    (mode : Mode) :
    Narrows (fun r => t₀.label r ∈ labels) (start p mode t₀) (startAttached p mode t₀) :=
  ⟨⟨rfl, rfl, rfl, rfl, rfl⟩, roots_start h₀ hlabels mode, rfl, fun _ _ hc => absurd hc (by
    simp [startAttached, start]), fun _ => rfl⟩

/-- **What looking up the roots by label leaves out.** Let the root of a pattern accept only given
labels, and let an enumeration be asked about any trees. Its answers are those of an enumeration
that has all attached nodes before it and passes over the matches at roots that had none of the
labels at the beginning. So they are the same as without the look-up exactly if no match is reported
then at such a root. That is so as long as no attached node gets one of the labels that had none of
them. -/
theorem answers_narrowed (h₀ : t₀.WellFormed) (mode : Mode)
    (hlabels : literals? p.root.description = some labels) (ts : List Tree) :
    (start p mode t₀).answers ts =
        (startAttached p mode t₀).answersAmong (fun r => t₀.label r ∈ labels) ts ∧
      ((start p mode t₀).answers ts = (startAttached p mode t₀).answers ts ↔
        ∀ m ∈ (startAttached p mode t₀).reports ts, t₀.label m.root ∈ labels) ∧
      ((∀ t ∈ ts, ∀ r ∈ t₀.attached, t.label r ∈ labels → t₀.label r ∈ labels) →
        (start p mode t₀).answers ts = (startAttached p mode t₀).answers ts) := by
  have hsame := (narrows_start h₀ hlabels mode).answers ts
  have hiff : (start p mode t₀).answers ts = (startAttached p mode t₀).answers ts ↔
      ∀ m ∈ (startAttached p mode t₀).reports ts, t₀.label m.root ∈ labels := by
    rw [hsame, answersAmong_eq_iff]
    exact forall₂_congr fun m _ => decide_eq_true_iff
  refine ⟨hsame, hiff, fun hlater => hiff.mpr fun m hm => ?_⟩
  have hroot : m.root ∈ t₀.attached := by
    cases fresh_of_mem_reports hm with
    | unseen hc _ => exact absurd hc (by simp [startAttached, start])
    | untried hroot => exact hroot
  rcases label_of_mem_reports hlabels hm with ⟨machine, hc⟩ | ⟨t, ht, hlabel⟩
  · exact absurd hc (by simp [startAttached, start])
  · exact hlater t ht m.root hroot hlabel

/-- In `(S (A x))` the pattern `A|B` is asked for after the `A` has been called `B`. -/
theorem answers_narrowed_relabelled :
    let t := Tree.ofConstituent (some (.node "S" [.node "A" [.node "x" []]]))
    let u := (t.request (.setLabel 1 "B")).1
    let p : Pattern :=
      ⟨"A|B", .mk ⟨false, .oneOf [.literal "A", .literal "B"], []⟩ none none, [], [], .standard⟩
    t.WellFormed ∧ literals? p.root.description = some ["A", "B"] ∧
      (∀ r ∈ t.attached, u.label r ∈ ["A", "B"] → t.label r ∈ ["A", "B"]) ∧
      (start p .allBindings t).answers [u] = (startAttached p .allBindings t).answers [u] ∧
      (startAttached p .allBindings t).answers [u] = [some ⟨1, [], []⟩] := by
  intro t u p
  have ht : t.WellFormed := Tree.wellFormed_ofConstituent _
  have hlabels : literals? p.root.description = some ["A", "B"] := rfl
  have hlater : ∀ r ∈ t.attached, u.label r ∈ ["A", "B"] → t.label r ∈ ["A", "B"] := by decide
  have hsame := (answers_narrowed ht .allBindings hlabels [u]).2.2 fun v hv =>
    List.mem_singleton.mp hv ▸ hlater
  refine ⟨ht, hlabels, hlater, hsame, ?_⟩
  rw [answers, answers, next_eq_head? (by decide)]
  decide

/-- In `(S (A x))` the `A` is called `B` after an enumeration of the matches of `B` has begun. It
does not report the node, as one would that has all attached nodes before it. -/
theorem narrowing_misses_relabelled :
    let t := Tree.ofConstituent (some (.node "S" [.node "A" [.node "x" []]]))
    let u := (t.request (.setLabel 1 "B")).1
    t.WellFormed ∧ 1 ∈ t.attached ∧ ∃ p, Pattern.parse "B" .standard = .ok p ∧
      literals? p.root.description = some ["B"] ∧
      (start p .allBindings t).answers [u] = [none] ∧
      (startAttached p .allBindings t).answers [u] = [some ⟨1, [], []⟩] := by
  intro t u
  have ht : t.WellFormed := Tree.wellFormed_ofConstituent _
  let found (p : Pattern) : Bool :=
    literals? p.root.description = some ["B"] &&
      ((startAttached p .allBindings t).outstanding u).head? = some ⟨1, [], []⟩
  have hread : (Pattern.parse "B" .standard).toOption.any found = true := by decide +kernel
  obtain ⟨p, hp, hfound⟩ := Pattern.exists_parse hread
  simp only [found, Bool.and_eq_true, decide_eq_true_eq] at hfound
  obtain ⟨hlabels, hhead⟩ := hfound
  refine ⟨ht, by decide, p, hp, hlabels, ?_, ?_⟩
  · have hroots : (start p .allBindings t).roots = [] := by
      rw [roots_start ht hlabels]
      decide
    have hnone : (start p .allBindings t).outstanding u = [] := by
      rw [outstanding, hroots]
      rfl
    rw [answers, answers, next_eq_head? rfl, hnone]
    rfl
  · rw [answers, answers, next_eq_head? rfl, hhead]

end Enumeration

end Constituency
