import Constituency.Proofs.Bracket.Reading
import Constituency.Proofs.Tree.Shape

/-!
# When a written tree is read back

Reading a written constituent gives the same constituent exactly if nothing is lost on the way
(`Rose.Readable`): no leaf has an empty label, and no node without a label begins with a leaf, whose
label would become that of the node.

That this is enough is an induction over the constituent. That it is needed is a count. Taking up a
constituent never adds more nodes than the constituent has, and it adds fewer as soon as one leaf
disappears or gives its label away; once a node is missing, no other makes up for it.
-/

namespace Constituency

/-- Nothing is lost when the written form is read: leaves have labels, and a node without a label
does not begin with a leaf. -/
inductive Rose.Readable : Constituent → Prop where
  | leaf {l : Label} : l ≠ "" → Readable (.node l [])
  | inner {l : Label} {c : Constituent} {cs : List Constituent} : (l = "" → c.children ≠ []) →
    (∀ d ∈ c :: cs, Readable d) → Readable (.node l (c :: cs))

namespace Bracket

open Rose

/-! ## Nothing is lost -/

theorem Frame.isFresh_add (f : Frame) (c : Constituent) : (f.add c).isFresh = false := by
  rw [isFresh, add]
  exact Bool.and_false _

/-- The frame of a label is fresh if the label is empty. -/
theorem Frame.isFresh_of_label (l : Label) : (⟨l, []⟩ : Frame).isFresh = l.isEmpty :=
  Bool.and_true _

mutual

/-- A constituent that loses nothing comes back as a child. -/
theorem absorb_of_readable : ∀ (c : Constituent) (f : Frame), c.Readable →
    (c.children = [] → f.isFresh = false) → f.absorb c = f.add c
  | .node l [], f, hc, hfresh => by
    cases hc with
    | leaf hl =>
      rw [Frame.absorb, if_neg (by simpa using hl), hfresh rfl, if_neg Bool.false_ne_true]
  | .node l (c :: cs), f, hc, _ => by
    cases hc with
    | inner hfirst hall =>
      have hframe : ∀ d, (c :: cs).head? = some d → d.children = [] →
          (⟨l, []⟩ : Frame).isFresh = false := by
        intro d hd hleaf
        obtain rfl := Option.some.inj hd
        rw [Frame.isFresh_of_label]
        exact Bool.eq_false_iff.mpr fun hl => hfirst (String.isEmpty_iff.mp hl) hleaf
      rw [Frame.absorb, absorbAll_of_readable (c :: cs) _ hall hframe, Frame.close,
        List.append_nil, List.reverse_reverse]

theorem absorbAll_of_readable : ∀ (cs : List Constituent) (f : Frame), (∀ c ∈ cs, c.Readable) →
    (∀ c, cs.head? = some c → c.children = [] → f.isFresh = false) →
    f.absorbAll cs = ⟨f.label, cs.reverse ++ f.children⟩
  | [], f, _, _ => by rw [Frame.absorbAll, List.reverse_nil, List.nil_append]
  | c :: cs, f, hcs, hfresh => by
    rw [Frame.absorbAll, absorb_of_readable c f (hcs c (List.mem_cons_self ..)) (hfresh c rfl),
      absorbAll_of_readable cs _ (fun d hd => hcs d (List.mem_cons_of_mem c hd))
        fun _ _ _ => f.isFresh_add c, List.reverse_cons, List.append_assoc]
    rfl

end

/-! ## Counting nodes -/

/-- The number of nodes below an open node so far. -/
def Frame.size (f : Frame) : Nat := sizeAll f.children

theorem Frame.size_add (f : Frame) (c : Constituent) : (f.add c).size = f.size + c.size := by
  show c.size + sizeAll f.children = _
  rw [Nat.add_comm]
  rfl

theorem Frame.size_close (f : Frame) : f.close.size = f.size + 1 := by
  rw [Frame.close, Rose.size, sizeAll_reverse]
  rfl

mutual

/-- No nodes are made up. -/
theorem size_absorb_le : ∀ (c : Constituent) (f : Frame), (f.absorb c).size ≤ f.size + c.size
  | .node l [], f => by
    rw [Frame.absorb]
    split
    · exact Nat.le_add_right ..
    · split
      · exact Nat.le_add_right ..
      · exact Nat.le_of_eq (f.size_add _)
  | .node l (c :: cs), f => by
    have hle := size_absorbAll_le (c :: cs) ⟨l, []⟩
    have hzero : (⟨l, []⟩ : Frame).size = 0 := rfl
    rw [Frame.absorb, Frame.size_add, Frame.size_close, Rose.size]
    omega

theorem size_absorbAll_le : ∀ (cs : List Constituent) (f : Frame),
    (f.absorbAll cs).size ≤ f.size + sizeAll cs
  | [], f => by
    rw [Frame.absorbAll, sizeAll]
    exact Nat.le_refl _
  | c :: cs, f => by
    have hfirst := size_absorb_le c f
    have hrest := size_absorbAll_le cs (f.absorb c)
    rw [Frame.absorbAll, sizeAll]
    omega

end

mutual

/-- If no node is missing, nothing was lost. -/
theorem readable_of_size_le : ∀ (c : Constituent) (f : Frame),
    f.size + c.size ≤ (f.absorb c).size → c.Readable ∧ (c.children = [] → f.isFresh = false)
  | .node l [], f, hsize => by
    have hone : Rose.size (.node l ([] : List Constituent)) = 1 := rfl
    rw [Frame.absorb, hone] at hsize
    split at hsize
    · exact absurd hsize (Nat.not_succ_le_self _)
    · rename_i hl
      split at hsize
      · exact absurd hsize (Nat.not_succ_le_self f.size)
      · rename_i hfresh
        exact ⟨.leaf (by simpa using hl), fun _ => by simpa using hfresh⟩
  | .node l (c :: cs), f, hsize => by
    have hzero : (⟨l, []⟩ : Frame).size = 0 := rfl
    rw [Frame.absorb, Frame.size_add, Frame.size_close, Rose.size] at hsize
    obtain ⟨hall, hfirst⟩ := readable_of_sizeAll_le (c :: cs) ⟨l, []⟩ (by omega)
    refine ⟨.inner ?_ hall, fun hleaf => absurd hleaf (by simp [Rose.children])⟩
    intro hl hleaf
    have hfresh := hfirst c rfl hleaf
    rw [Frame.isFresh_of_label, hl] at hfresh
    exact absurd hfresh (by decide)

theorem readable_of_sizeAll_le : ∀ (cs : List Constituent) (f : Frame),
    f.size + sizeAll cs ≤ (f.absorbAll cs).size →
    (∀ c ∈ cs, c.Readable) ∧ ∀ c, cs.head? = some c → c.children = [] → f.isFresh = false
  | [], _, _ => ⟨fun _ hc => absurd hc (by simp), fun _ hc => absurd hc (by simp)⟩
  | c :: cs, f, hsize => by
    rw [Frame.absorbAll, sizeAll] at hsize
    -- what the first loses, the others do not make up for
    have hrest := size_absorbAll_le cs (f.absorb c)
    have hfirst := size_absorb_le c f
    obtain ⟨hc, hfresh⟩ := readable_of_size_le c f (by omega)
    obtain ⟨hcs, _⟩ := readable_of_sizeAll_le cs (f.absorb c) (by omega)
    refine ⟨fun d hd => ?_, fun d hd => ?_⟩
    · rcases List.mem_cons.mp hd with rfl | hd
      · exact hc
      · exact hcs d hd
    · obtain rfl := Option.some.inj hd
      exact hfresh

end

/-- **A constituent is read back from its written form exactly if nothing of it is lost.** -/
theorem parse_written_iff {c : Constituent} (hc : c.HasAtoms) :
    parse c.written = .ok (some c) ↔ c.Readable := by
  obtain ⟨l, cs⟩ := c
  cases cs with
  | nil =>
    by_cases hl : l = ""
    · subst hl
      refine ⟨fun h => absurd h (by simp [Rose.written, writeOnto, parse, tokens, tokensFrom,
        pendingAtom, bind, Except.bind, pure, Except.pure, Progress.result]), fun h => ?_⟩
      cases h with
      | leaf hne => exact absurd rfl hne
    · exact ⟨fun _ => .leaf hl, fun _ => parse_written_leaf (hasAtoms_node.mp hc).1 hl⟩
  | cons c cs =>
    rw [parse_written_node hc]
    constructor
    · intro h
      rw [Frame.close, Progress.result] at h
      have h := Except.ok.inj h
      split at h
      · exact absurd h (by simp)
      · have hnode := Option.some.inj h
        injection hnode with _ hchildren
        have hsize : ((⟨l, []⟩ : Frame).absorbAll (c :: cs)).size = sizeAll (c :: cs) := by
          rw [Frame.size, ← sizeAll_reverse, hchildren]
        refine (readable_of_size_le (.node l (c :: cs)) .fresh (Nat.le_of_eq ?_)).1
        rw [Frame.absorb, Frame.size_add, Frame.size_close, Rose.size, hsize]
    · intro h
      have hback := absorb_of_readable (.node l (c :: cs)) .fresh h fun hleaf =>
        absurd hleaf (by simp [Rose.children])
      rw [Frame.absorb] at hback
      injection hback with _ hchildren
      rw [(List.cons.inj hchildren).1, Progress.result, if_neg]
      simp

end Bracket

namespace Tree

open Constituency.Bracket Rose

variable {t : Tree}

/-- Nothing at a node is lost when the tree is written and read back. -/
structure ReadableAt (t : Tree) (n : NodeId) : Prop where
  leaf : t.children n = [] → t.label n ≠ ""
  first : ∀ c, (t.children n).head? = some c → t.label n = "" → t.children c ≠ []

theorem WellFormed.readable_iff (h : t.WellFormed) (n : NodeId) :
    (t.constituent n).Readable ↔ ∀ m ∈ t.preorder n, t.ReadableAt m := by
  induction n using h.down_induction with
  | step n ih =>
    rw [h.constituent_eq, h.preorder_eq]
    cases hcs : t.children n with
    | nil =>
      rw [List.map_nil, List.flatMap_nil]
      constructor
      · intro hr m hm
        obtain rfl := List.mem_singleton.mp hm
        cases hr with
        | leaf hl => exact ⟨fun _ => hl, fun c hc => absurd hc (by simp [hcs])⟩
      · exact fun hall => .leaf ((hall n (List.mem_singleton_self n)).leaf hcs)
    | cons c cs =>
      have hchild : ∀ d, d ∈ c :: cs → d ∈ t.children n := fun d hd => by rwa [hcs]
      have hfirst : (t.constituent c).children = [] ↔ t.children c = [] := by
        rw [h.constituent_eq, Rose.children, List.map_eq_nil_iff]
      constructor
      · intro hr m hm
        cases hr with
        | inner hlabel hall =>
          rcases List.mem_cons.mp hm with rfl | hm
          · refine ⟨fun hleaf => absurd hleaf (by simp [hcs]), fun d hd hl => ?_⟩
            rw [hcs] at hd
            obtain rfl := Option.some.inj hd
            exact fun hleaf => hlabel hl (hfirst.mpr hleaf)
          · obtain ⟨d, hd, hm⟩ := List.mem_flatMap.mp hm
            exact (ih d (hchild d hd)).mp (hall _ (List.mem_map_of_mem hd)) m hm
      · intro hall
        have hn := hall n (List.mem_cons_self ..)
        refine .inner (fun hl hleaf => hn.first c (by rw [hcs]; rfl) hl (hfirst.mp hleaf)) ?_
        rw [← List.map_cons]
        intro k hk
        obtain ⟨d, hd, rfl⟩ := List.mem_map.mp hk
        exact (ih d (hchild d hd)).mpr fun m hm =>
          hall m (List.mem_cons_of_mem n (List.mem_flatMap.mpr ⟨d, hd, hm⟩))

theorem hasAtoms_constituent_iff (t : Tree) (n : NodeId) :
    (t.constituent n).HasAtoms ↔ ∀ m ∈ t.preorder n, (t.label m).IsAtom := by
  rw [HasAtoms, preorder_constituent]
  simp only [List.mem_map, forall_exists_index, and_imp, forall_apply_eq_imp_iff₂]

/-- The tree read from a text is the one that the text denotes. -/
theorem parseTree_iff {text : String} {u : Tree} :
    parseTree text = .ok u ↔ ∃ c, parse text.toList = .ok c ∧ u = ofConstituent c := by
  unfold parseTree
  cases parse text.toList with
  | error e => simp [bind, Except.bind]
  | ok c => simp [bind, Except.bind, pure, Except.pure, eq_comm]

/-- Reading what is written of a tree gives the same tree exactly if it has no root, or if all its
labels are atoms and nothing is lost. -/
theorem WellFormed.reads_back (h : t.WellFormed) :
    (∃ u, parseTree t.render = .ok u ∧ u.whole = t.whole) ↔
      t.root = none ∨ ∀ n ∈ t.attached, (t.label n).IsAtom ∧ t.ReadableAt n := by
  have hread : (∃ u, parseTree t.render = .ok u ∧ u.whole = t.whole) ↔
      parse t.render.toList = .ok t.whole := by
    constructor
    · rintro ⟨u, hu, hwhole⟩
      obtain ⟨c, hc, rfl⟩ := parseTree_iff.mp hu
      rw [hc, ← hwhole, whole_ofConstituent]
    · exact fun hparse =>
        ⟨ofConstituent t.whole, parseTree_iff.mpr ⟨_, hparse, rfl⟩, whole_ofConstituent _⟩
  rw [hread]
  unfold Tree.render Tree.attached Tree.whole
  cases hr : t.root with
  | none =>
    have hempty : parse "()".toList = .ok none := rfl
    exact iff_of_true hempty (.inl rfl)
  | some r =>
    have hlabels := hasAtoms_constituent_iff t r
    show parse (String.ofList (t.constituent r).written).toList = .ok (some (t.constituent r)) ↔ _
    rw [String.toList_ofList]
    simp only [reduceCtorEq, false_or]
    constructor
    · intro hparse
      have hatoms := (parse_some hparse).1
      have hreadable := (h.readable_iff r).mp ((parse_written_iff hatoms).mp hparse)
      exact fun n hn => ⟨hlabels.mp hatoms n hn, hreadable n hn⟩
    · intro hall
      refine (parse_written_iff (hlabels.mpr fun n hn => (hall n hn).1)).mpr ?_
      exact (h.readable_iff r).mpr fun n hn => (hall n hn).2

/-- **When writing and reading gives the same tree.** The text of a tree is read as a tree with the
same attached part, numbers of nodes apart, exactly if the tree has no root or if, of its attached
nodes, none has a parenthesis or a blank in its label, no leaf has an empty label, and every other
node with an empty label has one for its first child that is no leaf either. -/
theorem render_reads_back_iff (t : Tree) (h : t.WellFormed) :
    (∃ u, parseTree t.render = .ok u ∧ u.whole = t.whole) ↔
      t.root = none ∨
        (∀ n ∈ t.attached, ∀ c ∈ (t.label n).toList, c ≠ '(' ∧ c ≠ ')' ∧ Text.isBlank c = false) ∧
        (∀ n ∈ t.attached, t.children n = [] → t.label n ≠ "") ∧
        (∀ n ∈ t.attached, t.children n ≠ [] → t.label n = "" →
          ∃ c, (t.children n).head? = some c ∧ t.children c ≠ []) := by
  rw [h.reads_back]
  refine or_congr_right ⟨fun hall => ⟨?_, ?_, ?_⟩, ?_⟩
  · intro n hn c hc
    simpa [isDelimiter, and_assoc] using (hall n hn).1 c hc
  · exact fun n hn => (hall n hn).2.leaf
  · intro n hn hinner hl
    obtain ⟨c, cs, hcs⟩ := List.exists_cons_of_ne_nil hinner
    exact ⟨c, by rw [hcs]; rfl, (hall n hn).2.first c (by rw [hcs]; rfl) hl⟩
  · rintro ⟨hlabels, hleaves, hinner⟩ n hn
    refine ⟨fun c hc => ?_, hleaves n hn, ?_⟩
    · simpa [isDelimiter, and_assoc] using hlabels n hn c hc
    · intro c hc hl
      have hne : t.children n ≠ [] := fun hnil => by
        rw [hnil] at hc
        exact absurd hc (by simp)
      obtain ⟨d, hd, hchildren⟩ := hinner n hn hne hl
      obtain rfl := Option.some.inj (hc.symm.trans hd)
      exact hchildren

/-- A node without a label is read back if it begins with an inner node, as in `( (S a) b)`. -/
theorem render_reads_back_unlabelled :
    let c : Constituent := .node "" [.node "S" [.node "a" []], .node "b" []]
    let t := ofConstituent (some c)
    t.WellFormed ∧ t.render = "( (S a) b)" ∧
      ∃ u, parseTree t.render = .ok u ∧ u.whole = t.whole := by
  intro c t
  have h : t.WellFormed := wellFormed_ofConstituent (some c)
  have hatoms : ∀ n ∈ t.attached, (t.label n).toList.any isDelimiter = false := by decide
  have hall : ∀ n ∈ t.attached, t.label n = "" → n = 0 := by decide
  refine ⟨h, by decide, (render_reads_back_iff t h).mpr (.inr ⟨?_, by decide, ?_⟩)⟩
  · intro n hn c hc
    have hc := List.any_eq_false.mp (hatoms n hn) c hc
    simpa [isDelimiter, and_assoc] using hc
  · intro n hn hinner hl
    obtain rfl := hall n hn hl
    exact ⟨1, by decide, by decide⟩

/-- The text of a tree that was read can always be read again. -/
theorem parse_render_of_parse {cs : List Char} {c : Option Constituent} (hc : parse cs = .ok c) :
    ∃ d, parse (Bracket.render c).toList = .ok d := by
  cases c with
  | none => exact ⟨none, rfl⟩
  | some c =>
    obtain ⟨hatoms, hne⟩ := parse_some hc
    show ∃ d, parse (String.ofList c.written).toList = .ok d
    rw [String.toList_ofList]
    obtain ⟨l, cs⟩ := c
    cases cs with
    | nil =>
      have hl : l ≠ "" := fun hl => hne (by rw [hl])
      exact ⟨_, parse_written_leaf (hasAtoms_node.mp hatoms).1 hl⟩
    | cons c cs =>
      rw [parse_written_node hatoms, Frame.close]
      exact ⟨_, rfl⟩

/-- **What becomes of a tree that was read when it is written and read again.** Its text is always
accepted. The same tree comes back exactly if it has no root, or if no leaf has an empty label and
no node without a label begins with a leaf. Texts with childless brackets below a bracket without a
label, or with empty brackets in the tree, are therefore not stable. -/
theorem rereads_iff (text : String) (t : Tree) (ht : parseTree text = .ok t) :
    (∃ u, parseTree t.render = .ok u) ∧
      ((∃ u, parseTree t.render = .ok u ∧ u.whole = t.whole) ↔
        t.root = none ∨ ∀ n ∈ t.attached, t.ReadableAt n) := by
  obtain ⟨c, hc, rfl⟩ := parseTree_iff.mp ht
  constructor
  · obtain ⟨d, hd⟩ := parse_render_of_parse hc
    refine ⟨ofConstituent d, parseTree_iff.mpr ⟨d, ?_, rfl⟩⟩
    rw [Tree.render, whole_ofConstituent, hd]
  · rw [(wellFormed_ofConstituent c).reads_back]
    cases c with
    | none => exact iff_of_true (.inl rfl) (.inl rfl)
    | some c =>
      -- the labels of what was read are atoms already
      have hatoms := (parse_some hc).1
      rw [← constituent_ofConstituent c, hasAtoms_constituent_iff] at hatoms
      exact or_congr_right
        ⟨fun hall n hn => (hall n hn).2, fun hall n hn => ⟨hatoms n hn, hall n hn⟩⟩

/-- A text with a bracket without a label that is read, written and read again. -/
theorem rereads_unlabelled :
    let t := ofConstituent (some (.node "" [.node "S" [.node "a" []]]))
    parseTree "((S  (a)))" = .ok t ∧ ∃ u, parseTree t.render = .ok u ∧ u.whole = t.whole := by
  intro t
  have ht : parseTree "((S  (a)))" = .ok t := by rfl
  refine ⟨ht, (rereads_iff _ t ht).2.mpr (.inr fun n hn => ?_)⟩
  have hcases : ∀ n ∈ t.attached, n = 0 ∨ n = 1 ∨ n = 2 := by decide
  obtain rfl | rfl | rfl := hcases n hn
  · exact ⟨by decide, fun c hc _ => by obtain rfl := Option.some.inj hc; decide⟩
  · exact ⟨by decide, fun c hc hl => absurd hl (by decide)⟩
  · have hnone : (t.children 2).head? = none := by decide
    exact ⟨by decide, fun c hc _ => absurd (hnone.symm.trans hc) (by simp)⟩

/-- In `((X))` the inner bracket is a leaf, and the tree is written `( X)`; that is read as a single
leaf, since `X` stands where the label of a node is expected. So it is not true of every text that
what is read from it is stable. -/
theorem reread_loses_childless_bracket :
    let t := ofConstituent (some (.node "" [.node "X" []]))
    let u := ofConstituent (some (.node "X" []))
    parseTree "((X))" = .ok t ∧ t.render = "( X)" ∧ parseTree "( X)" = .ok u ∧
      t.size = 2 ∧ u.size = 1 ∧
      ¬ ∀ (text : String) (t : Tree), parseTree text = .ok t →
        ∃ u, parseTree t.render = .ok u ∧ u.whole = t.whole := by
  intro t u
  have ht : parseTree "((X))" = .ok t := by rfl
  have hrender : t.render = "( X)" := by decide
  have hu : parseTree "( X)" = .ok u := by rfl
  refine ⟨ht, hrender, hu, by decide, by decide, fun hall => ?_⟩
  obtain ⟨v, hv, hwhole⟩ := hall "((X))" t ht
  rw [hrender, hu] at hv
  obtain rfl := Except.ok.inj hv
  have hsize : t.whole.map Rose.size = u.whole.map Rose.size := by rw [hwhole]
  exact absurd hsize (by decide)

end Tree

end Constituency
