import Mathlib.Data.List.Nodup
import Constituency.Search.Enumeration
import Constituency.Proofs.Tree.Traversal

/-!
# The roots that an index supplies

Where the root of a pattern accepts only given labels, an enumeration does not
try all attached nodes. It looks up the nodes of each label, sorts what it has
found and drops what the same label, given twice, has brought in twice. This
file is about that being the same as going through the attached nodes in order
and leaving out those of other labels (`roots_of_labels`).

The position of a node in an index is its position in the list of attached
nodes, which has no repetitions, so the sorted list has equal nodes only next to
each other. Without them it is strictly increasing, and so is the filtered list;
two strictly increasing lists with the same members are equal.
-/

namespace Constituency

open Constituency.Tree

/-! ## Dropping what repeats the element before it -/

section repetitions

variable {α : Type} [BEq α]

theorem eraseRepsBy_loop (a : α) (as acc : List α) :
    List.eraseRepsBy.loop (· == ·) a as acc =
      acc.reverse ++ List.eraseRepsBy.loop (· == ·) a as [] := by
  induction as generalizing a acc with
  | nil => simp [List.eraseRepsBy.loop]
  | cons b bs ih =>
    rw [List.eraseRepsBy.loop, List.eraseRepsBy.loop]
    split
    · exact ih a acc
    · rw [ih b (a :: acc), ih b [a], List.reverse_cons, List.append_assoc]
      rfl

theorem eraseReps_cons_cons (a b : α) (bs : List α) :
    (a :: b :: bs).eraseReps =
      if a == b then (a :: bs).eraseReps else a :: (b :: bs).eraseReps := by
  rw [List.eraseReps, List.eraseReps, List.eraseReps, List.eraseRepsBy, List.eraseRepsBy.loop]
  cases a == b with
  | true => rfl
  | false =>
    dsimp only
    rw [eraseRepsBy_loop]
    rfl

variable [LawfulBEq α]

theorem mem_eraseReps (x : α) (as : List α) : x ∈ as.eraseReps ↔ x ∈ as := by
  induction as with
  | nil => exact Iff.rfl
  | cons a as ih =>
    cases as with
    | nil => exact Iff.rfl
    | cons b bs =>
      rw [eraseReps_cons_cons]
      by_cases hab : a = b
      · subst hab
        rw [if_pos (beq_iff_eq.mpr rfl), ih, List.mem_cons (b := a) (l := a :: bs)]
        exact ⟨.inr, fun h => h.elim (fun hx => hx ▸ List.mem_cons_self ..) id⟩
      · rw [if_neg (by simpa using hab), List.mem_cons, ih, List.mem_cons (b := a)]

/-- In a sorted list nothing is left that occurs twice. -/
theorem pairwise_eraseReps {le : α → α → Prop} (as : List α) (hsorted : as.Pairwise le)
    (hanti : ∀ x ∈ as, ∀ y ∈ as, le x y → le y x → x = y) :
    as.eraseReps.Pairwise fun x y => le x y ∧ x ≠ y := by
  induction as with
  | nil => exact List.Pairwise.nil
  | cons a as ih =>
    obtain ⟨ha, hrest⟩ := List.pairwise_cons.mp hsorted
    have hpair := ih hrest fun x hx y hy =>
      hanti x (List.mem_cons_of_mem a hx) y (List.mem_cons_of_mem a hy)
    cases as with
    | nil => exact List.pairwise_singleton _ _
    | cons b bs =>
      rw [eraseReps_cons_cons]
      by_cases hab : a = b
      · subst hab
        rwa [if_pos (beq_iff_eq.mpr rfl)]
      · rw [if_neg (by simpa using hab)]
        refine List.pairwise_cons.mpr ⟨?_, hpair⟩
        intro x hx
        have hx := (mem_eraseReps x _).mp hx
        refine ⟨ha x hx, ?_⟩
        rintro rfl
        -- then `b` stands between two occurrences of `a`
        rcases List.mem_cons.mp hx with rfl | hbs
        · exact hab rfl
        · exact hab (hanti a (List.mem_cons_self ..) b
            (List.mem_cons_of_mem a (List.mem_cons_self ..)) (ha b (List.mem_cons_self ..))
            ((List.pairwise_cons.mp hrest).1 a hbs))

end repetitions

namespace Index

/-! ## The nodes of a label -/

theorem lookup_record_eq (l : Label) (id : NodeId) (labelled : List (Label × List NodeId))
    (k : Label) :
    (record l id labelled).lookup k =
      if l = k then some ((labelled.lookup k).getD [] ++ [id]) else labelled.lookup k := by
  induction labelled with
  | nil =>
    rw [record, List.lookup_cons]
    by_cases hk : l = k
    · simp [hk]
    · have hbeq : (k == l) = false := by simpa using Ne.symm hk
      simp [hbeq, hk]
  | cons entry rest ih =>
    obtain ⟨key, ids⟩ := entry
    rw [record]
    by_cases hkey : key = l
    · rw [if_pos (beq_iff_eq.mpr hkey), List.lookup_cons, List.lookup_cons]
      by_cases hk : l = k
      · simp [hkey, hk]
      · have hbeq : (k == key) = false := by
          rw [hkey]
          simpa using Ne.symm hk
        simp [hbeq, hk]
    · rw [if_neg (by simpa using hkey), List.lookup_cons, List.lookup_cons]
      by_cases hk : k = key
      · subst hk
        simp [Ne.symm hkey]
      · have hbeq : (k == key) = false := by simpa using hk
        rw [hbeq]
        exact ih

theorem lookup_record (l : Label) (id : NodeId) (labelled : List (Label × List NodeId))
    (k : Label) :
    ((record l id labelled).lookup k).getD [] =
      (labelled.lookup k).getD [] ++ if l = k then [id] else [] := by
  rw [lookup_record_eq]
  by_cases hk : l = k
  · rw [if_pos hk, if_pos hk]
    rfl
  · rw [if_neg hk, if_neg hk, List.append_nil]

/-- **The index lists the nodes of a label as a look through the attached nodes would.** -/
theorem withLabel_build (t : Tree) (l : Label) :
    (build t).withLabel l = t.attached.filter fun id => t.label id = l := by
  -- for any nodes, put on record after any others
  have hfold : ∀ (ids : List NodeId) (labelled : List (Label × List NodeId)),
      ((ids.foldl (fun labelled id => record (t.label id) id labelled) labelled).lookup l).getD [] =
        (labelled.lookup l).getD [] ++ ids.filter fun id => t.label id = l := by
    intro ids
    induction ids with
    | nil => simp
    | cons id ids ih =>
      intro labelled
      rw [List.foldl_cons, ih, lookup_record, List.append_assoc, List.filter_cons]
      by_cases hl : t.label id = l
      · simp [hl]
      · simp [hl]
  exact hfold t.attached []

/-! ## Positions -/

section enumerate

variable {α : Type} (value : Nat → α)

theorem foldl_setIfInBounds_of_not_mem {x : NodeId} : ∀ (ids : List NodeId) (k : Nat)
    (ps : Array (Option α)), x ∉ ids →
    ((ids.zipIdx k).foldl (fun ps (id, k) => ps.setIfInBounds id (some (value k))) ps)[x]? = ps[x]?
  | [], _, _, _ => rfl
  | id :: ids, k, ps, h => by
    have hne : id ≠ x := fun heq => h (heq ▸ List.mem_cons_self ..)
    rw [List.zipIdx_cons, List.foldl_cons,
      foldl_setIfInBounds_of_not_mem ids (k + 1) _ fun hx => h (List.mem_cons_of_mem id hx)]
    exact Array.getElem?_setIfInBounds_ne hne

/-- A table filled with what the nodes of a list get by their place in it. -/
theorem foldl_setIfInBounds {x : NodeId} : ∀ (ids : List NodeId) (k : Nat)
    (ps : Array (Option α)), ids.Nodup → x ∈ ids → x < ps.size →
    ((ids.zipIdx k).foldl (fun ps (id, k) => ps.setIfInBounds id (some (value k))) ps)[x]?.join =
      some (value (k + ids.idxOf x))
  | [], _, _, _, h, _ => absurd h (by simp)
  | id :: ids, k, ps, hnodup, h, hx => by
    obtain ⟨hid, hnodup⟩ := List.nodup_cons.mp hnodup
    rw [List.zipIdx_cons, List.foldl_cons]
    by_cases heq : id = x
    · subst heq
      rw [foldl_setIfInBounds_of_not_mem value ids (k + 1) _ hid,
        Array.getElem?_setIfInBounds_self_of_lt hx, List.idxOf_cons_self]
      rfl
    · have hmem : x ∈ ids := (List.mem_cons.mp h).resolve_left (Ne.symm heq)
      rw [foldl_setIfInBounds ids (k + 1) _ hnodup hmem (by rwa [Array.size_setIfInBounds]),
        List.idxOf_cons_ne ids heq]
      congr 2
      omega

end enumerate

/-- The position of an attached node is its position in the list of these nodes. -/
theorem position_build {t : Tree} (h : t.WellFormed) {id : NodeId} (hid : id ∈ t.attached) :
    (build t).position id = some (t.attached.idxOf id) := by
  have hfold := foldl_setIfInBounds (fun k => k) t.attached 0 (Array.replicate t.nodes.size none)
    h.attached_nodup hid (by rw [Array.size_replicate]; exact h.lt_size_of_mem_attached hid)
  rwa [Nat.zero_add] at hfold

theorem isBefore_total (i : Index) (a b : NodeId) : (i.isBefore a b || i.isBefore b a) = true := by
  unfold isBefore
  cases i.position a with
  | none => rfl
  | some m =>
    cases i.position b with
    | none => rfl
    | some n =>
      simp only [Bool.or_eq_true, decide_eq_true_eq]
      exact Nat.le_total m n

theorem isBefore_trans (i : Index) (a b c : NodeId) (hab : i.isBefore a b = true)
    (hbc : i.isBefore b c = true) : i.isBefore a c = true := by
  unfold isBefore at *
  cases ha : i.position a with
  | none => rfl
  | some m =>
    cases hb : i.position b with
    | none => simp [ha, hb] at hab
    | some n =>
      cases hc : i.position c with
      | none => simp [hb, hc] at hbc
      | some k =>
        simp only [ha, hb, hc, decide_eq_true_eq] at *
        exact Nat.le_trans hab hbc

/-- Between attached nodes the order of the index is that of the list of these nodes. -/
theorem isBefore_build {t : Tree} (h : t.WellFormed) {a b : NodeId} (ha : a ∈ t.attached)
    (hb : b ∈ t.attached) :
    (build t).isBefore a b = true ↔ t.attached.idxOf a ≤ t.attached.idxOf b := by
  unfold isBefore
  rw [position_build h ha, position_build h hb]
  exact decide_eq_true_iff

/-- Two attached nodes that come before each other are one node. -/
theorem isBefore_antisymm {t : Tree} (h : t.WellFormed) {a b : NodeId} (ha : a ∈ t.attached)
    (hb : b ∈ t.attached) (hab : (build t).isBefore a b = true)
    (hba : (build t).isBefore b a = true) : a = b := by
  have hle := (isBefore_build h ha hb).mp hab
  have hge := (isBefore_build h hb ha).mp hba
  exact (List.idxOf_inj ha).mp (Nat.le_antisymm hle hge)

/-- The list of attached nodes is in the order of the index. -/
theorem attached_sorted {t : Tree} (h : t.WellFormed) :
    t.attached.Pairwise fun a b => (build t).isBefore a b = true := by
  refine List.pairwise_iff_getElem.mpr ?_
  intro i j hi hj hij
  rw [isBefore_build h (List.getElem_mem hi) (List.getElem_mem hj),
    h.attached_nodup.idxOf_getElem i hi, h.attached_nodup.idxOf_getElem j hj]
  exact Nat.le_of_lt hij

end Index

namespace Enumeration

/-! ## The roots -/

/-- **The nodes looked up by label, sorted and without repetitions, are the attached nodes that
have one of the labels, in order.** -/
theorem roots_of_labels {t : Tree} (h : t.WellFormed) (labels : List Label) :
    ((labels.flatMap (Index.build t).withLabel).mergeSort (Index.build t).isBefore).eraseReps =
      t.attached.filter fun id => t.label id ∈ labels := by
  have hmem : ∀ x,
      x ∈ (labels.flatMap (Index.build t).withLabel).mergeSort (Index.build t).isBefore ↔
      x ∈ t.attached.filter fun id => t.label id ∈ labels := by
    intro x
    rw [List.mem_mergeSort, List.mem_flatMap, List.mem_filter, decide_eq_true_iff]
    constructor
    · rintro ⟨l, hl, hx⟩
      rw [Index.withLabel_build, List.mem_filter, decide_eq_true_iff] at hx
      exact ⟨hx.1, hx.2 ▸ hl⟩
    · rintro ⟨hx, hl⟩
      refine ⟨t.label x, hl, ?_⟩
      rw [Index.withLabel_build, List.mem_filter, decide_eq_true_iff]
      exact ⟨hx, rfl⟩
  -- both lists are strictly sorted, so that they are equal if they have the same members
  have hsorted := List.pairwise_mergeSort (Index.isBefore_trans (Index.build t))
    (Index.isBefore_total (Index.build t)) (labels.flatMap (Index.build t).withLabel)
  have hkeeps := fun x => (mem_eraseReps x _).trans (hmem x)
  have hpair := pairwise_eraseReps _ hsorted fun x hx y hy =>
    Index.isBefore_antisymm h (List.mem_filter.mp ((hmem x).mp hx)).1
      (List.mem_filter.mp ((hmem y).mp hy)).1
  have hnodup := hpair.imp fun hxy => hxy.2
  have hperm := (List.perm_ext_iff_of_nodup hnodup (h.attached_nodup.filter _)).mpr hkeeps
  refine hperm.eq_of_pairwise ?_ (hpair.imp fun hxy => hxy.1)
    ((Index.attached_sorted h).filter _)
  intro x y hx hy
  exact Index.isBefore_antisymm h (List.mem_filter.mp ((hkeeps x).mp hx)).1
    (List.mem_filter.mp hy).1

end Enumeration

end Constituency
