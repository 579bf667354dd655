import Constituency.Proofs.Surgery.Process
import Constituency.Proofs.Tree.Revision

/-!
# Operations that a tree does not count

Most operations are there to change the structure of the attached part. Some applications of them do
not: labels are changed, or nodes are deleted that had been detached before, or the operation is
refused and leaves nothing but copies and trees of templates. `Operation.isUncounted` tells from the
state before an operation that it is of this kind, and `Script.apply_uncounted` says that a script
of such operations leaves the revision as it was.

To delete several detached nodes one after the other is to work in a tree that has been changed
already. Since no change was counted, the attached part is still the same, so that the nodes to come
are still detached.
-/

namespace Constituency

open Constituency.Tree Constituency.Surgery

/-- The second tree comes from the first by known requests, and has not counted any. -/
structure Tree.Uncounted (t u : Tree) : Prop where
  edits : Edits t u
  revision : u.revision = t.revision

namespace Tree.Uncounted

variable {t u v : Tree}

theorem refl (t : Tree) : Uncounted t t := ⟨.refl t, rfl⟩

theorem trans (htu : Uncounted t u) (huv : Uncounted u v) : Uncounted t v :=
  ⟨htu.edits.trans huv.edits, huv.revision.trans htu.revision⟩

theorem of_grown (h : Grown t u) : Uncounted t u := ⟨h.edits, h.revision_eq⟩

/-- To relabel a node is not counted. -/
theorem setLabel (h : t.WellFormed) (id : NodeId) (l : Label) :
    Uncounted t (t.request (.setLabel id l)).1 := by
  cases hr : (Request.setLabel id l).isKnown t with
  | true =>
    rw [Tree.request, if_pos hr]
    exact ⟨.single hr, ((revision_perform h hr).1 rfl).1⟩
  | false =>
    rw [Tree.request, if_neg (by rw [hr]; exact Bool.false_ne_true)]
    exact .refl t

/-- The same nodes are attached. -/
theorem isAttached_eq (hu : Uncounted t u) (h : t.WellFormed) (n : NodeId) :
    u.isAttached n = t.isAttached n :=
  (hu.edits.sameAttached h hu.revision).isAttached h (h.edits hu.edits).1 n

end Tree.Uncounted

/-! ## Edits -/

namespace Edit

variable {α : Type} {t : Tree}

/-- Whether it is carried out or refused, the edit is not counted. -/
def Uncounted (x : Edit α) (t : Tree) : Prop :=
  Ends x t (fun _ u => t.Uncounted u) fun _ u => t.Uncounted u

theorem perform_uncounted (h : t.WellFormed) {r : Request} (hr : r.isKnown t = true)
    (hkeeps : r.keepsStructure t = true) : Uncounted (perform r) t :=
  ends_perform hr ⟨.single hr, ((revision_perform h hr).1 hkeeps).1⟩

theorem relabel_uncounted (h : t.WellFormed) {id : NodeId} (hid : id < t.nodes.size) (l : Label) :
    Uncounted (relabel id l) t :=
  perform_uncounted h (r := .setLabel id l) (contains_eq_true.mpr hid) rfl

theorem coindex_uncounted (h : t.WellFormed) {id : NodeId} (hid : id < t.nodes.size)
    (index : Nat) : Uncounted (coindex index id) t :=
  Ends.get_bind (relabel_uncounted h hid _)

theorem detach_uncounted (h : t.WellFormed) {id : NodeId} (hid : id < t.nodes.size)
    (hdetached : t.isAttached id = false) : Uncounted (detach id) t :=
  perform_uncounted h (r := .detach id) (contains_eq_true.mpr hid)
    (by rw [Request.keepsStructure, hdetached]; rfl)

/-- One uncounted edit after another. -/
theorem Uncounted.bind {β : Type} {x : Edit α} {f : α → Edit β} (hx : Uncounted x t)
    (hf : ∀ a u, t.Uncounted u → Uncounted (f a) u) : Uncounted (x >>= f) t := by
  refine Ends.bind hx ?_ fun _ _ hu => hu
  intro a u hu
  exact (hf a u hu).mono (fun _ _ hv => hu.trans hv) fun _ _ hv => hu.trans hv

theorem detachChildless_uncounted (ids : List NodeId) (h : t.WellFormed)
    (hids : ∀ id ∈ ids, id < t.nodes.size ∧ t.isAttached id = false) :
    Uncounted (detachChildless ids) t := by
  induction ids generalizing t with
  | nil => exact Ends.of_pure (.refl t)
  | cons id ids ih =>
    obtain ⟨hid, hdetached⟩ := hids id (List.mem_cons_self ..)
    refine Ends.get_bind ?_
    split
    · refine (detach_uncounted h hid hdetached).bind ?_
      intro _ u hu
      obtain ⟨hwf, hsize⟩ := h.edits hu.edits
      refine ih hwf fun x hx => ?_
      obtain ⟨hknown, hfree⟩ := hids x (List.mem_cons_of_mem id hx)
      exact ⟨Nat.lt_of_lt_of_le hknown hsize, by rw [hu.isAttached_eq h, hfree]⟩
    · exact Ends.of_pure (.refl t)

theorem prune_uncounted (h : t.WellFormed) {id : NodeId} (hid : id < t.nodes.size)
    (hdetached : t.isAttached id = false) : Uncounted (prune id) t := by
  -- what is above a detached node is detached too
  have habove : ∀ a ∈ t.ancestors id, a < t.nodes.size ∧ t.isAttached a = false := by
    intro a ha
    have hup := h.mem_ancestors_iff.mp ha
    refine ⟨h.under_lt_size hup, Bool.eq_false_iff.mpr fun hattached => ?_⟩
    obtain ⟨r, hr, har⟩ := h.isAttached_iff.mp hattached
    rw [h.isAttached_iff.mpr ⟨r, hr, hup.to_reflTransGen.trans har⟩] at hdetached
    exact absurd hdetached (by simp)
  refine Ends.get_bind ((detach_uncounted h hid hdetached).bind ?_)
  intro _ u hu
  obtain ⟨hwf, hsize⟩ := h.edits hu.edits
  refine detachChildless_uncounted _ hwf fun a ha => ?_
  obtain ⟨hknown, hfree⟩ := habove a ha
  exact ⟨Nat.lt_of_lt_of_le hknown hsize, by rw [hu.isAttached_eq h, hfree]⟩

end Edit

/-! ## Attempts -/

/-- The tree has not counted what was done, and names have their nodes. -/
structure Surgery.Uncounted (s u : Surgery) : Prop where
  tree : s.tree.Uncounted u.tree
  names : ∀ name, u.node? name = s.node? name

variable {s : Surgery}

theorem Surgery.Uncounted.refl (s : Surgery) : s.Uncounted s := ⟨.refl _, fun _ => rfl⟩

/-- A step that is not counted, whether it is carried out or not. -/
def Step.Uncounted {α : Type} (x : Step α) (s : Surgery) : Prop :=
  Ends x s (fun _ u => s.Uncounted u) fun _ u => s.Uncounted u

theorem Step.edit_uncounted {α : Type} {change : Edit α} (h : change.Uncounted s.tree) :
    Step.Uncounted (edit change) s := by
  refine Ends.get_bind ?_
  unfold Edit.Uncounted Ends at h
  rcases hrun : change.run.run s.tree with ⟨r, tree⟩
  rw [hrun] at h
  have hs : s.tree.Uncounted tree := by
    cases r with
    | ok a => exact h
    | error e => exact h
  exact Ends.set_bind (Ends.of_ofExcept (fun _ _ => ⟨hs, fun _ => rfl⟩)
    fun _ _ => ⟨hs, fun _ => rfl⟩)

/-- The node of a name, and then something to be done with it. -/
theorem Step.fetch_uncounted {name : String} {rest : NodeId → Step Unit}
    (hrest : ∀ id, s.node? name = some id → id < s.tree.nodes.size → Step.Uncounted (rest id) s) :
    Step.Uncounted (fetch name >>= rest) s := by
  have hfetch : Ends (fetch name) s (fun id u => u = s ∧ s.fetch name = .ok id)
      fun _ u => s.Uncounted u :=
    Ends.get_bind (Ends.of_ofExcept (fun _ hid => ⟨rfl, hid⟩) fun _ _ => .refl s)
  refine Ends.bind hfetch ?_ fun _ _ hu => hu
  rintro id _ ⟨rfl, hid⟩
  obtain ⟨hname, hknown⟩ := fetch_eq_ok_iff.mp hid
  exact hrest id hname hknown

namespace Surgery

theorem attempt_uncounted (keyword : String) {step : Step Unit} (h : step.Uncounted s) :
    s.Uncounted (s.attempt keyword step).1 := by
  rcases attempt_cases keyword h with ⟨u, hattempt, hu⟩ | ⟨_, u, hattempt, hu⟩
  · rwa [hattempt]
  · rwa [hattempt]

/-- A change made at several nodes that all satisfy a condition, which holds for as long as nothing
has been counted. -/
theorem forEach_uncounted (keyword : String) {change : NodeId → Edit Unit}
    (free : Tree → NodeId → Prop)
    (hfree : ∀ {t u : Tree} {id : NodeId}, t.WellFormed → t.Uncounted u → free t id → free u id)
    (hchange : ∀ {t : Tree} {id : NodeId}, t.WellFormed → id < t.nodes.size → free t id →
      (change id).Uncounted t)
    (names : List String) (h : s.tree.WellFormed)
    (hnames : ∀ name ∈ names, ∀ id, s.node? name = some id → free s.tree id) :
    s.tree.Uncounted (forEach keyword change names s).1.tree := by
  induction names generalizing s with
  | nil => exact .refl _
  | cons name names ih =>
    have hfirst := attempt_uncounted keyword (Step.fetch_uncounted fun id hname hid =>
      Step.edit_uncounted (hchange h hid (hnames name (List.mem_cons_self ..) id hname)) :
        Step.Uncounted (do
          let id ← Step.fetch name
          Step.edit (change id)) s)
    rw [forEach]
    refine hfirst.tree.trans (ih (h.edits hfirst.tree.edits).1 ?_)
    intro other hother id hid
    rw [hfirst.names] at hid
    exact hfree h hfirst.tree (hnames other (List.mem_cons_of_mem name hother) id hid)

end Surgery

/-! ## Operations and scripts -/

namespace Operation

/-- Whether every node that one of several names has is detached. -/
def areDetached (s : Surgery) (names : List String) : Bool :=
  names.all fun name => (s.node? name).all fun id => !s.tree.isAttached id

/-- Whether an operation, if it is carried out, changes labels or detached nodes only. -/
def sparesStructure (s : Surgery) : Operation → Bool
  | delete names => areDetached s names
  | prune names => areDetached s names
  | relabel _ _ => true
  | coindex _ => true
  | ifExists name negated guarded =>
    (s.node? name).isSome == negated || guarded.sparesStructure s
  | _ => false

/-- Whether an operation changes labels or detached nodes only, or is given up. -/
def isUncounted (marks : Marks) (s : Surgery) (o : Operation) : Bool :=
  o.sparesStructure s || (o.isAtomic && !(o.run marks s).2.isEmpty)

/-- Whether this is so for each of several operations when its turn comes. -/
def areUncounted (marks : Marks) : List Operation → Surgery → Bool
  | [], _ => true
  | o :: os, s => o.isUncounted marks s && areUncounted marks os (o.run marks s).1

/-- Whether an operation can change nothing but labels. -/
def isLabelling : Operation → Bool
  | relabel _ _ => true
  | coindex _ => true
  | ifExists _ _ guarded => guarded.isLabelling
  | _ => false

theorem detached_of_areDetached {names : List String} (h : areDetached s names = true) :
    ∀ name ∈ names, ∀ id, s.node? name = some id → s.tree.isAttached id = false := by
  intro name hname id hid
  have hall := List.all_eq_true.mp h name hname
  rw [hid] at hall
  simpa using hall

theorem runAs_uncounted (keyword : String) (marks : Marks) (o : Operation) (h : s.tree.WellFormed)
    (hspares : o.sparesStructure s = true) :
    s.tree.Uncounted (o.runAs keyword marks s).1.tree := by
  have hstays : ∀ {t u : Tree} {id : NodeId}, t.WellFormed → t.Uncounted u →
      t.isAttached id = false → u.isAttached id = false :=
    fun ht hu hid => by rw [hu.isAttached_eq ht, hid]
  induction o with
  | delete names =>
    exact forEach_uncounted keyword (fun t id => t.isAttached id = false) hstays
      (fun ht hid hfree => Edit.detach_uncounted ht hid hfree) names h
      (detached_of_areDetached hspares)
  | prune names =>
    exact forEach_uncounted keyword (fun t id => t.isAttached id = false) hstays
      (fun ht hid hfree => Edit.prune_uncounted ht hid hfree) names h
      (detached_of_areDetached hspares)
  | coindex names =>
    exact forEach_uncounted keyword (fun _ _ => True) (fun _ _ _ => trivial)
      (fun ht hid _ => Edit.coindex_uncounted ht hid _) names h fun _ _ _ _ => trivial
  | relabel name how =>
    refine (attempt_uncounted keyword (Step.fetch_uncounted fun id _ hid => ?_)).tree
    have hlabel : Ends (ofExcept (s.relabelled name id how) : Step Label) s (fun _ u => u = s)
        fun _ u => s.Uncounted u :=
      Ends.of_ofExcept (fun _ _ => rfl) fun _ _ => .refl s
    refine Ends.get_bind (Ends.bind hlabel ?_ fun _ _ hu => hu)
    rintro l _ rfl
    exact Step.edit_uncounted (Edit.relabel_uncounted h hid l)
  | ifExists name negated guarded ih =>
    rw [runAs]
    split
    · rename_i hruns
      rw [sparesStructure, Bool.or_eq_true] at hspares
      refine ih (hspares.resolve_left fun hsame => ?_)
      rw [beq_iff_eq.mp hsame, bne_self_eq_false] at hruns
      exact absurd hruns (by simp)
    · exact .refl _
  | _ => exact absurd hspares (by simp [sparesStructure])

theorem run_uncounted (marks : Marks) (o : Operation) (h : s.tree.WellFormed)
    (hun : o.isUncounted marks s = true) : s.tree.Uncounted (o.run marks s).1.tree := by
  rcases Bool.or_eq_true_iff.mp hun with hspares | hgiven
  · exact runAs_uncounted o.keyword marks o h hspares
  · obtain ⟨hatomic, hreports⟩ := Bool.and_eq_true_iff.mp hgiven
    have hrun : Attempted s (o.run marks s).1 (o.run marks s).2 :=
      runAs_attempted o.keyword marks o hatomic h
    exact .of_grown (hrun.prepared (by simpa using hreports)).grown

theorem runAll_uncounted (marks : Marks) (os : List Operation) (h : s.tree.WellFormed)
    (hun : areUncounted marks os s = true) : s.tree.Uncounted (runAll marks os s).1.tree := by
  induction os generalizing s with
  | nil => exact .refl _
  | cons o os ih =>
    obtain ⟨ho, hos⟩ := Bool.and_eq_true_iff.mp hun
    have hfirst := run_uncounted marks o h ho
    rw [runAll]
    exact hfirst.trans (ih (h.edits hfirst.edits).1 hos)

theorem sparesStructure_of_isLabelling {o : Operation} (h : o.isLabelling = true) (s : Surgery) :
    o.sparesStructure s = true := by
  induction o with
  | relabel name how => rfl
  | coindex names => rfl
  | ifExists name negated guarded ih =>
    rw [sparesStructure, ih h, Bool.or_true]
  | _ => exact absurd h (by simp [isLabelling])

theorem areUncounted_of_isLabelling (marks : Marks) {os : List Operation}
    (h : ∀ o ∈ os, o.isLabelling = true) (s : Surgery) : areUncounted marks os s = true := by
  induction os generalizing s with
  | nil => rfl
  | cons o os ih =>
    have ho := sparesStructure_of_isLabelling (h o (List.mem_cons_self ..)) s
    rw [areUncounted, isUncounted, ho, ih fun k hk => h k (List.mem_cons_of_mem o hk)]
    rfl

end Operation

/-- Whether a script, applied to a match, changes labels and detached nodes only. -/
def Script.isUncounted (s : Script) (t : Tree) (m : Match) : Bool :=
  Operation.areUncounted s.marks s.operations ⟨t, m, []⟩

variable {t : Tree}

/-- **A script that changes labels and detached nodes only is not counted.** -/
theorem Script.apply_uncounted (s : Script) (ht : t.WellFormed) {m : Match}
    (h : s.isUncounted t m = true) : t.Uncounted (s.apply t m).tree :=
  Operation.runAll_uncounted s.marks s.operations (s := ⟨t, m, []⟩) ht h

/-- Neither is one that can change nothing but labels, applied to any number of matches. -/
theorem Rule.runFrom_uncounted (r : Rule) (hr : ∀ o ∈ r.script.operations, o.isLabelling = true)
    (limit : Nat) (e : Enumeration) (ht : t.WellFormed) :
    t.Uncounted (r.runFrom limit e t).1 := by
  induction limit generalizing e t with
  | zero =>
    unfold runFrom
    split
    · exact .refl t
    · rcases e.next t with ⟨_ | m, e'⟩
      · exact .refl t
      · exact .refl t
  | succ limit ih =>
    unfold runFrom
    split
    · exact .refl t
    · rcases e.next t with ⟨_ | m, e'⟩
      · exact .refl t
      · have hfirst := r.script.apply_uncounted ht (m := m)
          (Operation.areUncounted_of_isLabelling _ hr _)
        exact hfirst.trans (ih _ (ht.edits hfirst.edits).1)

end Constituency
