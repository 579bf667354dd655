import Constituency.Proofs.Label.Coindex
import Constituency.Proofs.Surgery.EachNode

/-!
# What giving a co-index comes to

The operation takes the number above all co-indices of attached labels and writes it at the end of
the label of every node that it is given, once for each name of the node (`indexed_coindex`). All
that is known of the labels afterwards follows from this and from what a label reads with an index
at its end.

The number is found again on all of these nodes, save those whose label was empty, and the labels
of the other attached nodes have lower ones (`coindex_fresh`). So it is the highest number
afterwards, and since further operations of the kind do not lower the highest number, it is not
given again. The basic categories and the functional tags stay, save those of labels that are empty
or wrapped in dashes (`categories_coindex`).
-/

namespace Constituency

open Constituency.Tree Constituency.Surgery

/-- A condition on the place of a node depends on the links alone. -/
theorem Predicate.holds_of_sameLinks {t u : Tree} (h : SameLinks t u) (n : NodeId) (p : Predicate) :
    p.holds u n = p.holds t n := by
  cases p with
  | leaf => exact congrArg List.isEmpty (h.children n).symm
  | preterminal =>
    show u.isPreterminal n = t.isPreterminal n
    unfold isPreterminal isLeaf
    simp only [h.children]
  | root => exact congrArg (· == some n) h.root.symm

/-! ## The highest co-index -/

theorem foldl_max_le_iff {a m : Nat} {ks : List Nat} :
    ks.foldl max a ≤ m ↔ a ≤ m ∧ ∀ k ∈ ks, k ≤ m := by
  induction ks generalizing a with
  | nil => simp
  | cons k ks ih => rw [List.foldl_cons, ih, Nat.max_le, List.forall_mem_cons, and_assoc]

namespace Tree

variable {t u v : Tree} {marks : Marks} {n : NodeId} {k m : Nat}

theorem maxCoindex_le_iff : t.maxCoindex marks ≤ m ↔
    ∀ n ∈ t.attached, ∀ k, (t.label n).coindex marks = some k → k ≤ m := by
  rw [maxCoindex, foldl_max_le_iff]
  constructor
  · exact fun h n hn k hk => h.2 k (List.mem_filterMap.mpr ⟨n, hn, hk⟩)
  · intro h
    refine ⟨Nat.zero_le m, fun k hk => ?_⟩
    obtain ⟨n, hn, hk⟩ := List.mem_filterMap.mp hk
    exact h n hn k hk

/-- No attached label has a co-index above the highest. -/
theorem le_maxCoindex (hn : n ∈ t.attached) (hk : (t.label n).coindex marks = some k) :
    k ≤ t.maxCoindex marks :=
  maxCoindex_le_iff.mp (Nat.le_refl _) n hn k hk

/-! ## Trees that differ in co-indices -/

/-- The second tree has a number added to the labels of the first, to each as often as the node is
listed. -/
structure Indexed (t u : Tree) (number : Nat) (ids : List NodeId) : Prop where
  links : SameLinks t u
  label : ∀ n < t.nodes.size,
    u.label n = (Label.withCoindex · number)^[ids.count n] (t.label n)

namespace Indexed

variable {number : Nat} {ids : List NodeId}

theorem refl (t : Tree) (number : Nat) : Indexed t t number [] :=
  ⟨⟨rfl, rfl, fun _ => rfl, fun _ => rfl⟩, fun _ _ => rfl⟩

/-- The number is added to one more label. -/
theorem setLabel (h : Indexed t u number ids) (id : NodeId) :
    Indexed t (u.setLabel id ((u.label id).withCoindex number)) number (ids ++ [id]) := by
  refine ⟨⟨?_, h.links.root, fun n => ?_, fun n => ?_⟩, fun n hn => ?_⟩
  · rw [size_setLabel, h.links.size]
  · rw [parent_setLabel, h.links.parent]
  · rw [children_setLabel, h.links.children]
  · rw [label_setLabel, List.count_append]
    by_cases hid : id = n
    · rw [if_pos ⟨hid, h.links.size ▸ hn⟩, ← hid, List.count_singleton_self,
        Function.iterate_succ_apply', h.label id (hid ▸ hn)]
    · rw [if_neg fun hc => hid hc.1, h.label n hn, List.count_singleton,
        if_neg (by simpa using hid), Nat.add_zero]

/-- A node that the arena does not have makes no difference. -/
theorem append_unknown (h : Indexed t u number ids) {id : NodeId} (hid : ¬ id < u.nodes.size) :
    Indexed t u number (ids ++ [id]) := by
  refine ⟨h.links, fun n hn => ?_⟩
  have hne : id ≠ n := by
    rintro rfl
    exact hid (h.links.size ▸ hn)
  rw [h.label n hn, List.count_append, List.count_singleton, if_neg (by simpa using hne),
    Nat.add_zero]

theorem attached_eq (h : Indexed t u number ids) (ht : t.WellFormed) : u.attached = t.attached :=
  (ht.sameAttached (ht.of_sameLinks h.links) h.links.root.symm
    fun n _ => (h.links.children n).symm).attached

theorem label_of_notMem (h : Indexed t u number ids) (hlt : n < t.nodes.size) (hn : n ∉ ids) :
    u.label n = t.label n := by
  rw [h.label n hlt, List.count_eq_zero.mpr hn]
  rfl

section marks

variable (hdash : '-' ∈ marks) (hdigit : ∀ c ∈ marks, c.isDigit = false)

include hdash hdigit

/-- The number is found on every listed node, unless the label was empty. -/
theorem coindex_of_mem (h : Indexed t u number ids) (hroom : number < UInt32.size)
    (hlt : n < t.nodes.size) (hn : n ∈ ids) (hl : t.label n ≠ "") :
    (u.label n).coindex marks = some number := by
  rw [h.label n hlt]
  exact Label.coindex_iterate hdash hdigit hl hroom (List.count_pos_iff.mpr hn)

/-- No other number is found on a listed node. -/
theorem eq_of_mem (h : Indexed t u number ids) (hroom : number < UInt32.size)
    (hlt : n < t.nodes.size) (hn : n ∈ ids) (hk : (u.label n).coindex marks = some k) :
    k = number := by
  rw [h.label n hlt] at hk
  exact Label.eq_of_coindex_iterate hdash hdigit hroom (List.count_pos_iff.mpr hn) hk

/-- **A number that is not below the highest co-index** is not below it afterwards. -/
theorem maxCoindex_le (h : Indexed t u number ids) (ht : t.WellFormed)
    (hroom : number < UInt32.size) (hnumber : t.maxCoindex marks ≤ number) :
    u.maxCoindex marks ≤ number := by
  refine maxCoindex_le_iff.mpr fun n hn k hk => ?_
  rw [h.attached_eq ht] at hn
  have hlt := ht.lt_size_of_mem_attached hn
  by_cases hmem : n ∈ ids
  · exact Nat.le_of_eq (h.eq_of_mem hdash hdigit hroom hlt hmem hk)
  · rw [h.label_of_notMem hlt hmem] at hk
    exact Nat.le_trans (Tree.le_maxCoindex hn hk) hnumber

/-- The number is a co-index of the tree if a listed node is attached and has a label. -/
theorem le_maxCoindex (h : Indexed t u number ids) (ht : t.WellFormed)
    (hroom : number < UInt32.size) (hn : n ∈ t.attached) (hmem : n ∈ ids) (hl : t.label n ≠ "") :
    number ≤ u.maxCoindex marks := by
  refine Tree.le_maxCoindex (n := n) (by rwa [h.attached_eq ht]) ?_
  exact h.coindex_of_mem hdash hdigit hroom (ht.lt_size_of_mem_attached hn) hmem hl

/-- A number above the highest co-index does not lower it. -/
theorem maxCoindex_mono (h : Indexed t u number ids) (ht : t.WellFormed)
    (hroom : number < UInt32.size) (hnumber : t.maxCoindex marks ≤ number) :
    t.maxCoindex marks ≤ u.maxCoindex marks := by
  refine maxCoindex_le_iff.mpr fun n hn k hk => ?_
  have hlt := ht.lt_size_of_mem_attached hn
  by_cases hmem : n ∈ ids
  · -- an empty label has no co-index
    have hl : t.label n ≠ "" := by
      intro hl
      rw [hl] at hk
      exact absurd hk (by simp [Label.coindex, Label.coindexChars, Label.annotationChars])
    exact Nat.le_trans (Nat.le_trans (Tree.le_maxCoindex hn hk) hnumber)
      (h.le_maxCoindex hdash hdigit ht hroom hn hmem hl)
  · rw [← h.label_of_notMem hlt hmem] at hk
    exact Tree.le_maxCoindex (by rwa [h.attached_eq ht]) hk

end marks

end Indexed

end Tree

/-! ## The operation -/

theorem Edit.ends_coindex {t : Tree} {id : NodeId} (hid : id < t.nodes.size) (number : Nat) :
    Ends (Edit.coindex number id) t
      (fun _ u => u = t.setLabel id ((t.label id).withCoindex number)) fun _ _ => False :=
  Ends.get_bind (ends_perform (r := .setLabel id _) (contains_eq_true.mpr hid) rfl)

namespace Operation

variable {s : Surgery} {marks : Marks}

/-- The number that an operation gives next. -/
def nextCoindex (marks : Marks) (t : Tree) : Nat := t.maxCoindex marks + 1

/-- **Each name adds the number once** to the label of its node. -/
theorem indexed_coindex (marks : Marks) (names : List String) (s : Surgery) :
    ∃ t, ((coindex names).run marks s).1 = { s with tree := t } ∧
      s.tree.Indexed t (nextCoindex marks s.tree) (s.nodesOf names) :=
  forEach_nodes (fun ids t => s.tree.Indexed t (nextCoindex marks s.tree) ids)
    (fun h hid => (Edit.ends_coindex hid _).mono (fun _ _ ht => ht ▸ h.setLabel _) fun _ _ hf => hf)
    (fun h hid => h.append_unknown hid) _ names (.refl s.tree _)

/-- Whether one of several names has an attached node with a label. -/
def fetchesLabel (s : Surgery) (names : List String) : Bool :=
  (s.nodesOf names).any fun n => s.tree.attached.contains n && s.tree.label n != ""

theorem fetchesLabel_iff {names : List String} : fetchesLabel s names = true ↔
    ∃ n ∈ s.nodesOf names, n ∈ s.tree.attached ∧ s.tree.label n ≠ "" := by
  simp only [fetchesLabel, List.any_eq_true, Bool.and_eq_true, List.contains_iff_mem, bne_iff_ne]

/-- What the labels of the attached nodes are after a co-index has been given. -/
structure Coindexed (marks : Marks) (names : List String) (s u : Surgery) : Prop where
  attached : u.tree.attached = s.tree.attached
  /-- The number stands at the end once for each name of the node. -/
  label : ∀ n ∈ s.tree.attached, u.tree.label n =
    (Label.withCoindex · (nextCoindex marks s.tree))^[(s.nodesOf names).count n] (s.tree.label n)
  fetched : ∀ n ∈ s.tree.attached, n ∈ s.nodesOf names → s.tree.label n ≠ "" →
    (u.tree.label n).coindex marks = some (nextCoindex marks s.tree)
  others : ∀ n ∈ s.tree.attached, n ∉ s.nodesOf names → u.tree.label n = s.tree.label n ∧
    ∀ k, (u.tree.label n).coindex marks = some k → k < nextCoindex marks s.tree
  highest : fetchesLabel s names = true → u.tree.maxCoindex marks = nextCoindex marks s.tree

section marks

variable (hdash : '-' ∈ marks) (hdigit : ∀ c ∈ marks, c.isDigit = false)

include hdash hdigit

theorem coindexed_run (h : s.tree.WellFormed) (names : List String)
    (hroom : nextCoindex marks s.tree < UInt32.size) :
    Coindexed marks names s ((coindex names).run marks s).1 := by
  obtain ⟨t, hrun, ht⟩ := indexed_coindex marks names s
  rw [hrun]
  have hlt := fun n (hn : n ∈ s.tree.attached) => h.lt_size_of_mem_attached hn
  refine ⟨ht.attached_eq h, fun n hn => ht.label n (hlt n hn), ?_, ?_, fun hfetches => ?_⟩
  · exact fun n hn hmem hl => ht.coindex_of_mem hdash hdigit hroom (hlt n hn) hmem hl
  · intro n hn hmem
    have hlabel := ht.label_of_notMem (hlt n hn) hmem
    refine ⟨hlabel, fun k hk => Nat.lt_succ_of_le ?_⟩
    rw [hlabel] at hk
    exact Tree.le_maxCoindex hn hk
  · obtain ⟨n, hmem, hn, hl⟩ := fetchesLabel_iff.mp hfetches
    exact Nat.le_antisymm (ht.maxCoindex_le hdash hdigit h hroom (Nat.le_succ _))
      (ht.le_maxCoindex hdash hdigit h hroom hn hmem hl)

/-- **Operations that give a co-index do not lower the highest.** -/
theorem maxCoindex_runAll (lists : List (List String)) (h : s.tree.WellFormed)
    (hroom : s.tree.maxCoindex marks + lists.length < UInt32.size) :
    s.tree.maxCoindex marks ≤
      (runAll marks (lists.map coindex) s).1.tree.maxCoindex marks := by
  induction lists generalizing s with
  | nil => exact Nat.le_refl _
  | cons names lists ih =>
    rw [List.length_cons] at hroom
    obtain ⟨t, hrun, ht⟩ := indexed_coindex marks names s
    have hnumber : nextCoindex marks s.tree < UInt32.size := by rw [nextCoindex]; omega
    have hmono := ht.maxCoindex_mono hdash hdigit h hnumber (Nat.le_succ _)
    have hle : t.maxCoindex marks ≤ s.tree.maxCoindex marks + 1 :=
      ht.maxCoindex_le hdash hdigit h hnumber (Nat.le_succ _)
    have hrest := ih (s := { s with tree := t }) (h.of_sameLinks ht.links)
      (show t.maxCoindex marks + lists.length < UInt32.size by omega)
    have hafter : (runAll marks ((names :: lists).map coindex) s).1 =
        (runAll marks (lists.map coindex) { s with tree := t }).1 :=
      congrArg (fun u => (runAll marks (lists.map coindex) u).1) hrun
    rw [hafter]
    exact Nat.le_trans hmono hrest

/-- **A co-index is found on the nodes that were to get it, and on no other attached node.** Labels
that are empty aside, it is the highest from then on, and whatever number of such operations follow,
the next one gives a higher number. -/
theorem coindex_fresh (h : s.tree.WellFormed) (names : List String) (later : List (List String))
    (hroom : nextCoindex marks s.tree + later.length < UInt32.size) :
    Coindexed marks names s ((coindex names).run marks s).1 ∧
      (fetchesLabel s names = true → nextCoindex marks s.tree < nextCoindex marks
        (runAll marks (later.map coindex) ((coindex names).run marks s).1).1.tree) := by
  have hdone := coindexed_run hdash hdigit h names (Nat.lt_of_le_of_lt (Nat.le_add_right ..) hroom)
  refine ⟨hdone, fun hfetches => Nat.lt_succ_of_le ?_⟩
  have hhighest := hdone.highest hfetches
  obtain ⟨t, hrun, ht⟩ := indexed_coindex marks names s
  have hrest := maxCoindex_runAll (s := ((coindex names).run marks s).1) hdash hdigit later
    (by rw [hrun]; exact h.of_sameLinks ht.links) (by rwa [hhighest])
  rwa [hhighest] at hrest

end marks

/-- In `(S (NP-3 a) (VP-PRD b))` the number is 4, also on the node with two names; 5 comes next. -/
theorem coindex_fresh_of_two_names :
    let t := Tree.ofConstituent (some (.node "S" [.node "NP-3" [.node "a" []],
      .node "VP-PRD" [.node "b" []]]))
    let s : Surgery := ⟨t, ⟨0, [some 1, some 3, some 3], ["x", "y", "z"]⟩, []⟩
    let after := ((coindex ["y", "z"]).run Marks.standard s).1
    after.tree.label 1 = "NP-3" ∧ after.tree.label 3 = "VP-PRD-4-4" ∧
      (after.tree.label 3).coindex Marks.standard = some 4 ∧
      4 < nextCoindex Marks.standard (runAll Marks.standard [coindex ["x"]] after).1.tree := by
  intro t s after
  have h : t.WellFormed := wellFormed_ofConstituent _
  have hdash : '-' ∈ Marks.standard := by decide
  have hfresh := coindex_fresh (s := s) hdash (fun _ hc => Label.isDigit_of_mem_standard hc) h
    ["y", "z"] [["x"]] (by decide +kernel)
  have hnext : nextCoindex Marks.standard t = 4 := by decide +kernel
  have hfound := hfresh.1.fetched 3 (by decide +kernel) (by decide +kernel) (by decide +kernel)
  exact ⟨(hfresh.1.others 1 (by decide +kernel) (by decide +kernel)).1, by decide +kernel,
    hfound.trans (congrArg some hnext),
    Nat.lt_of_le_of_lt (Nat.le_of_eq hnext.symm) (hfresh.2 (by decide +kernel))⟩

/-- **An empty label is no label to write behind**: with two names of one node the number comes to
be found, on a node that had no label. -/
theorem coindex_of_unlabelled :
    let t := Tree.ofConstituent (some (.node "" [.node "A" []]))
    let s : Surgery := ⟨t, ⟨0, [some 0], ["r"]⟩, []⟩
    let after := ((coindex ["r", "r"]).run Marks.standard s).1
    0 ∈ t.attached ∧ t.label 0 = "" ∧ after.tree.label 0 ≠ t.label 0 ∧
      (after.tree.label 0).coindex Marks.standard = some (nextCoindex Marks.standard t) := by
  decide +kernel

/-! ## Basic categories -/

/-- **Basic categories and functional tags stay** when a co-index is added to labels that are
neither empty nor wrapped in dashes. So a test of the basic category holds of a node before and
after, if the node does not get an index or has such a label. -/
theorem categories_coindex (hdash : '-' ∈ marks) (hdigit : ∀ c ∈ marks, c.isDigit = false) :
    (∀ (l : Label) (number : Nat), l ≠ "" → Label.isWrapped l.toList = false →
      (l.withCoindex number).category marks = l.category marks ∧
        (l.withCoindex number).tags marks = l.tags marks) ∧
    ∀ (s : Surgery) (names : List String), ∀ n < s.tree.nodes.size,
      (n ∈ s.nodesOf names → s.tree.label n ≠ "" ∧
        Label.isWrapped (s.tree.label n).toList = false) →
        let u := ((coindex names).run marks s).1
        (u.tree.label n).category marks = (s.tree.label n).category marks ∧
        (u.tree.label n).tags marks = (s.tree.label n).tags marks ∧
        ∀ (negated : Bool) (name : String) (ps : List Predicate) (b : Bindings),
          (Description.mk negated (.oneOf [.category name]) ps).holds u.tree marks b n =
            (Description.mk negated (.oneOf [.category name]) ps).holds s.tree marks b n := by
  refine ⟨fun l number hl hbare => ⟨Label.category_withCoindex hdash hl hbare number,
    Label.tags_withCoindex hdash hdigit hl hbare number⟩, fun s names n hn hnamed => ?_⟩
  obtain ⟨t, hrun, ht⟩ := indexed_coindex marks names s
  dsimp only
  rw [hrun]
  -- the label of a node that is not named is the same
  have hlabel : (t.label n).category marks = (s.tree.label n).category marks ∧
      (t.label n).tags marks = (s.tree.label n).tags marks := by
    by_cases hmem : n ∈ s.nodesOf names
    · obtain ⟨hl, hbare⟩ := hnamed hmem
      rw [ht.label n hn]
      exact ⟨Label.category_iterate hdash hl hbare _ _,
        Label.tags_iterate hdash hdigit hl hbare _ _⟩
    · rw [ht.label_of_notMem hn hmem]
      exact ⟨rfl, rfl⟩
  refine ⟨hlabel.1, hlabel.2, fun negated name ps b => ?_⟩
  have hplace : Predicate.holds t n = Predicate.holds s.tree n :=
    funext (Predicate.holds_of_sameLinks ht.links n)
  have htest : (LabelTest.oneOf [.category name]).holds t marks b n =
      (LabelTest.oneOf [.category name]).holds s.tree marks b n :=
    congrArg (fun c => c == name || false) hlabel.1
  dsimp only [Description.holds]
  rw [hplace, htest]

/-- The trace of `(NP-SBJ (-NONE- *))`, its parent and a leaf: the subject gets an index. -/
theorem categories_coindex_of_subject :
    let t := Tree.ofConstituent (some (.node "NP-SBJ" [.node "-NONE-" [.node "*" []]]))
    let s : Surgery := ⟨t, ⟨0, [some 0], ["np"]⟩, []⟩
    let u := ((coindex ["np"]).run Marks.standard s).1
    u.tree.label 0 = "NP-SBJ-1" ∧ (u.tree.label 0).category Marks.standard = "NP" ∧
      (u.tree.label 0).tags Marks.standard = ["SBJ"] ∧
      (Description.mk false (.oneOf [.category "NP"]) [.root]).holds u.tree Marks.standard []
        0 := by
  intro t s u
  have hdash : '-' ∈ Marks.standard := by decide
  have hkept := (categories_coindex hdash fun _ hc => Label.isDigit_of_mem_standard hc).2 s ["np"] 0
    (by decide +kernel) (by decide +kernel)
  refine ⟨by decide +kernel, hkept.1.trans (by decide +kernel), hkept.2.1.trans (by decide +kernel),
    ?_⟩
  rw [hkept.2.2]
  decide +kernel

/-- **An empty label and one that is wrapped in dashes** have another basic category afterwards. -/
theorem category_withCoindex_ne :
    (Label.withCoindex "" 1).category Marks.standard ≠ Label.category Marks.standard "" ∧
      (Label.withCoindex "-NONE-" 1).category Marks.standard ≠
        Label.category Marks.standard "-NONE-" := by
  decide +kernel

end Operation

end Constituency
