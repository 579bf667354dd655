import Constituency.Bracket.Assembly
import Constituency.Proofs.Bracket.Items
import Constituency.Proofs.Tree.Copies

/-!
# Reading node by node gives the same tree

A tree can be read by collecting constituents on a stack and laying them out in an arena at the end
(`parseTree`), or by editing an arena with every token (`assemble`). The two agree.

The open nodes are the right edge of what has been read. If they were all closed at once, there
would be one constituent (`closeAll`), and the arena holds this constituent at any time. What is
innermost on the right edge comes last in pre-order, so that the nodes in front of it do not depend
on it (`exists_front`): a token only changes the end of the arena. A new node is therefore never
copied when it is inserted, and its number is the next one.
-/

namespace Constituency

namespace Tree

/-- All nodes of a tree built from a constituent are attached, and numbered in pre-order. -/
theorem attached_ofConstituent (c : Constituent) :
    (ofConstituent (some c)).attached = List.range c.size := by
  show ((ofConstituent (some c)).below 0).preorder = _
  rw [below_of_holds (holds_ofConstituent c) (Nat.le_of_eq (size_ofConstituent c).symm),
    Rose.preorder_map, Rose.preorder_numbered, List.zipIdx_map_snd, Rose.length_preorder,
    List.range_eq_range']

theorem isAttached_ofConstituent {c : Constituent} {n : NodeId} (hn : n < c.size) :
    (ofConstituent (some c)).isAttached n = true := by
  rw [← (wellFormed_ofConstituent (some c)).mem_attached_iff, attached_ofConstituent]
  exact List.mem_range.mpr hn

theorem toList_ofConstituent (c : Constituent) :
    (ofConstituent (some c)).nodes.toList = c.layout 0 none := rfl

end Tree

namespace Bracket

open Rose Constituency.Tree

/-! ## The right edge -/

/-- The constituent that there is if all open nodes are closed behind a finished one. -/
def closeAll (c : Constituent) : List Frame → Constituent
  | [] => c
  | f :: fs => closeAll (f.add c).close fs

/-- The number of nodes on a stack, with those below them: the number of the next node. -/
def place : List Frame → Nat
  | [] => 0
  | f :: fs => place fs + 1 + f.size

theorem place_cons (f : Frame) (fs : List Frame) : place (f :: fs) = place fs + 1 + f.size := rfl

theorem place_lt (f : Frame) (fs : List Frame) : place fs < place (f :: fs) := by
  rw [place_cons]
  omega

/-- The numbers of the open nodes, innermost first. -/
def edge : List Frame → List NodeId
  | [] => []
  | _ :: fs => place fs :: edge fs

theorem length_edge (fs : List Frame) : (edge fs).length = fs.length := by
  induction fs with
  | nil => rfl
  | cons f fs ih => rw [edge, List.length_cons, List.length_cons, ih]

/-- **What is innermost comes last.** The nodes in front of it do not depend on it. -/
theorem exists_front (fs : List Frame) : ∃ front : List Node, front.length = place fs ∧
    ∀ c, (closeAll c fs).layout 0 none = front ++ c.layout (place fs) (edge fs).head? := by
  induction fs with
  | nil => exact ⟨[], rfl, fun _ => rfl⟩
  | cons f fs ih =>
    obtain ⟨front, hlength, hfront⟩ := ih
    refine ⟨front ++ ⟨f.label, (edge fs).head?,
      roots (place fs + 1) f.children.reverse ++ [place (f :: fs)]⟩ ::
        layoutAll (place fs + 1) (place fs) f.children.reverse, ?_, fun c => ?_⟩
    · rw [List.length_append, List.length_cons, length_layoutAll, sizeAll_reverse, hlength,
        place_cons, Frame.size]
      omega
    · rw [closeAll, hfront, Frame.close, Frame.add, List.reverse_cons, layout, roots_append,
        layoutAll_append, sizeAll_reverse, List.append_assoc, List.cons_append]
      congr 3
      rw [layoutAll, layoutAll, List.append_nil]
      rfl

theorem size_closeAll (c : Constituent) (fs : List Frame) :
    (closeAll c fs).size = place fs + c.size := by
  obtain ⟨front, hlength, hfront⟩ := exists_front fs
  rw [← length_layout 0 none, hfront, List.length_append, hlength, length_layout]

theorem size_closeAll_close (f : Frame) (fs : List Frame) :
    (closeAll f.close fs).size = place (f :: fs) := by
  rw [size_closeAll, Frame.size_close, place_cons, Nat.add_right_comm, Nat.add_assoc]

/-- The arena while a node is open: what stands in front of it, the node, and what is below it. -/
theorem layout_closeAll_close (f : Frame) (fs : List Frame) : ∃ front : List Node,
    front.length = place fs ∧ ∀ g : Frame, g.children = f.children →
      (closeAll g.close fs).layout 0 none = front ++
        ⟨g.label, (edge fs).head?, roots (place fs + 1) f.children.reverse⟩ ::
          layoutAll (place fs + 1) (place fs) f.children.reverse := by
  obtain ⟨front, hlength, hfront⟩ := exists_front fs
  refine ⟨front, hlength, fun g hg => ?_⟩
  rw [hfront, Frame.close, hg, layout]

/-- **Adding a leaf to the innermost open node** adds a node at the end of the arena. -/
theorem pushChild_closeAll (f : Frame) (fs : List Frame) (l : Label) :
    let t := ofConstituent (some (closeAll f.close fs))
    ((t.addNode l).1.pushChild (place fs) (place (f :: fs))).1 =
      ofConstituent (some (closeAll (f.add (.node l [])).close fs)) := by
  intro t
  have hsize : t.nodes.size = place (f :: fs) := by
    rw [size_ofConstituent, size_closeAll_close]
  have hlt : place fs < t.nodes.size := hsize ▸ place_lt f fs
  obtain ⟨front, hlength, hfront⟩ := layout_closeAll_close f fs
  -- the arena with the new node, not yet linked
  have hnodes : (t.addNode l).1.nodes.toList = front ++
      ⟨f.label, (edge fs).head?, roots (place fs + 1) f.children.reverse⟩ ::
        (layoutAll (place fs + 1) (place fs) f.children.reverse ++ [⟨l, none, []⟩]) := by
    rw [addNode, toList_graft, toList_ofConstituent, hfront f rfl, List.append_assoc]
    rfl
  have hchildren : (t.addNode l).1.children (place fs) =
      roots (place fs + 1) f.children.reverse := by
    rw [children_eq, ← Array.getElem?_toList, hnodes, ← hlength,
      List.getElem?_append_right (Nat.le_refl _), Nat.sub_self]
    rfl
  have hready : (t.addNode l).1.Ready (place fs) (place (f :: fs)) :=
    hsize ▸ ready_graft (wellFormed_ofConstituent _) (.node l []) hlt
  have hlinked : (t.addNode l).1.link (place fs) ((t.addNode l).1.children (place fs)).length
      (place (f :: fs)) = { ofConstituent (some (closeAll (f.add (.node l [])).close fs)) with
        revision := (closeAll f.close fs).size } := by
    refine eq_of_fields (Array.ext' ?_) rfl rfl
    rw [link, setParent, setChildren, Array.toList_modify, Array.toList_modify, hnodes, hchildren,
      List.insertIdx_length_self, modify_modify_behind _ _ _ _ _ _ _ hlength.symm
        (by rw [hlength, length_layoutAll, sizeAll_reverse]; rfl), toList_ofConstituent]
    obtain ⟨front', hlength', hfront'⟩ := exists_front fs
    have hsame := hfront' f.close
    rw [hfront f rfl, Frame.close, layout] at hsame
    obtain rfl := (List.append_inj hsame (hlength.trans hlength'.symm)).1
    rw [hfront', Frame.close, Frame.add, List.reverse_cons, layout, roots_append, layoutAll_append,
      sizeAll_reverse]
    rfl
  have hattached : ((t.addNode l).1.link (place fs)
      ((t.addNode l).1.children (place fs)).length (place (f :: fs))).isAttached (place fs) =
        true := by
    rw [hlinked]
    refine isAttached_ofConstituent ?_
    rw [size_closeAll_close]
    exact place_lt ..
  rw [pushChild, insertChild_fst, available_of_ready hready, Nat.min_self, touch, if_pos hattached,
    hlinked]
  refine eq_of_fields rfl rfl ?_
  show (closeAll f.close fs).size + 1 = (closeAll (f.add (.node l [])).close fs).size
  rw [size_closeAll_close, size_closeAll_close, place_cons, place_cons, Frame.size_add]
  rfl

/-- Giving the innermost open node its label. -/
theorem setLabel_closeAll (f : Frame) (fs : List Frame) (l : Label) :
    (ofConstituent (some (closeAll f.close fs))).setLabel (place fs) l =
      ofConstituent (some (closeAll { f with label := l : Frame }.close fs)) := by
  obtain ⟨front, hlength, hfront⟩ := layout_closeAll_close f fs
  refine eq_of_fields (Array.ext' ?_) rfl ?_
  · rw [setLabel, Array.toList_modify, toList_ofConstituent, toList_ofConstituent, hfront f rfl,
      hfront { f with label := l } rfl, ← hlength, modify_behind]
  · show (closeAll f.close fs).size = (closeAll { f with label := l : Frame }.close fs).size
    rw [size_closeAll_close, size_closeAll_close]
    rfl

/-! ## Token by token -/

/-- The arena holds what has been read. -/
inductive Assembles : Assembly → Progress → Prop where
  | start : Assembles .start (.reading [])
  | reading (f : Frame) (fs : List Frame) :
    Assembles ⟨ofConstituent (some (closeAll f.close fs)), edge (f :: fs), f.isFresh⟩
      (.reading (f :: fs))
  | finished (c : Constituent) (atLabel : Bool) :
    Assembles ⟨ofConstituent (some c), [], atLabel⟩ (.finished c)

/-- Both ways of reading go on, or both give up with the same error. -/
inductive Agree : Except ParseError Assembly → Except ParseError Progress → Prop where
  | ok {a : Assembly} {p : Progress} : Assembles a p → Agree (.ok a) (.ok p)
  | error (e : ParseError) : Agree (.error e) (.error e)

theorem Assembles.deliver (f : Frame) (fs : List Frame) :
    Assembles ⟨ofConstituent (some (closeAll f.close fs)), edge fs, false⟩
      (.deliver f.close fs) := by
  cases fs with
  | nil => exact .finished f.close false
  | cons g gs =>
    have hread := Assembles.reading (g.add f.close) gs
    rwa [g.isFresh_add] at hread

/-- Adding a node below the innermost open one. -/
theorem addNode_reading (f : Frame) (fs : List Frame) (atLabel : Bool) (l : Label) :
    Assembly.addNode ⟨ofConstituent (some (closeAll f.close fs)), edge (f :: fs), atLabel⟩ l =
      (ofConstituent (some (closeAll (f.add (.node l [])).close fs)), place (f :: fs)) := by
  have hpushed := pushChild_closeAll f fs l
  rw [← size_closeAll_close, ← size_ofConstituent] at hpushed ⊢
  exact Prod.ext hpushed rfl

theorem step_opening {a : Assembly} (ha : a.opened ≠ []) (line : Nat) :
    a.step ⟨line, .opening⟩ = .ok ⟨(a.addNode "").1, (a.addNode "").2 :: a.opened, true⟩ := by
  obtain ⟨tree, opened, atLabel⟩ := a
  obtain ⟨node, rest, rfl⟩ := List.exists_cons_of_ne_nil ha
  rfl

theorem step_leaf {a : Assembly} (ha : a.opened ≠ []) (hlabel : a.atLabel = false) (line : Nat)
    (x : List Char) :
    a.step ⟨line, .atom x⟩ = .ok { a with tree := (a.addNode (String.ofList x)).1 } := by
  obtain ⟨tree, opened, atLabel⟩ := a
  obtain ⟨node, rest, rfl⟩ := List.exists_cons_of_ne_nil ha
  obtain rfl : atLabel = false := hlabel
  rfl

/-- **Each token is taken in the same way.** -/
theorem Assembles.step {a : Assembly} {p : Progress} (h : Assembles a p) {t : Located}
    (hatom : ∀ x, t.token = .atom x → x ≠ []) : Agree (a.step t) (p.step t) := by
  obtain ⟨line, token⟩ := t
  cases h with
  | finished c atLabel => exact .error _
  | start =>
    cases token with
    | opening => exact .ok (.reading .fresh [])
    | closing => exact .error _
    | atom x => exact .ok (.finished (.node (String.ofList x) []) false)
  | reading f fs =>
    cases token with
    | opening =>
      rw [step_opening (by simp [edge]), addNode_reading]
      exact .ok (.reading .fresh (f :: fs))
    | closing => exact .ok (.deliver f fs)
    | atom x =>
      rw [step_atom]
      by_cases hfresh : f.isFresh = true
      · have hnamed : ({ f with label := String.ofList x } : Frame).isFresh = false := by
          simp [Frame.isFresh, hatom x rfl]
        have hread := Assembles.reading { f with label := String.ofList x } fs
        rw [hnamed, ← setLabel_closeAll] at hread
        rw [if_pos hfresh, hfresh]
        exact .ok hread
      · have hread := Assembles.reading (f.add (.node (String.ofList x) [])) fs
        rw [f.isFresh_add] at hread
        rw [if_neg hfresh, Bool.eq_false_iff.mpr hfresh, step_leaf (by simp [edge]) rfl,
          addNode_reading]
        exact .ok hread

/-- **All tokens.** -/
theorem Assembles.run {a : Assembly} {p : Progress} (h : Assembles a p) {ts : List Located}
    (hatoms : ∀ t ∈ ts, ∀ x, t.token = .atom x → x ≠ []) :
    Agree (ts.foldlM Assembly.step a) (ts.foldlM Progress.step p) := by
  induction ts generalizing a p with
  | nil => exact .ok h
  | cons t ts ih =>
    have hstep := h.step (hatoms t (List.mem_cons_self ..))
    rw [List.foldlM_cons, List.foldlM_cons]
    generalize a.step t = b at hstep ⊢
    generalize p.step t = q at hstep ⊢
    cases hstep with
    | ok hb => exact ih hb fun u hu => hatoms u (List.mem_cons_of_mem t hu)
    | error e => exact .error e

/-- What is made of it at the end of the text. -/
theorem Assembles.result {a : Assembly} {p : Progress} (h : Assembles a p) (line : Nat) :
    a.result line = (p.result line).map ofConstituent := by
  cases h with
  | start => rfl
  | reading f fs =>
    show Except.error _ = Except.error _
    rw [length_edge]
  | finished c atLabel =>
    obtain ⟨l, cs⟩ := c
    have hleaf : (ofConstituent (some (.node l cs))).isLeaf 0 = cs.isEmpty := by
      cases cs <;> rfl
    have hlabel : (ofConstituent (some (.node l cs))).label 0 = l := rfl
    show Except.ok (if ((ofConstituent (some (.node l cs))).isLeaf 0 &&
      ((ofConstituent (some (.node l cs))).label 0).isEmpty) = true then _ else _) = _
    rw [hleaf, hlabel, Bool.and_comm, Progress.result]
    split <;> rfl

theorem parseTree_eq_map (text : String) :
    parseTree text = (parse text.toList).map ofConstituent := by
  rw [parseTree]
  cases parse text.toList <;> rfl

/-- **Reading node by node gives the same tree**, or the same error. -/
theorem assemble_eq (text : String) : assemble text = parseTree text := by
  have hrun := Assembles.start.run (tokens_ne_nil text.toList)
  rw [parseTree_eq_map, assemble, parse]
  generalize (tokens text.toList).foldlM Assembly.step .start = a at hrun ⊢
  generalize (tokens text.toList).foldlM Progress.step (.reading []) = p at hrun ⊢
  cases hrun with
  | ok h => exact h.result _
  | error e => rfl

/-- **Which texts are trees.** A text falls into parentheses and atoms in one way. It is accepted
exactly if they are one item. The tree is then the one that the item denotes, or the tree without
nodes if there are just parentheses; its nodes are all attached and numbered in pre-order, also when
they are added one by one as the tokens come. Otherwise the error has the line of the first token
that cannot continue an item, or else of the end of the text, when all tokens can be continued. -/
theorem parseTree_denotes (text : String) :
    let cs := text.toList
    Tokenized 1 cs (tokens cs) ∧
      ((∃ t, parseTree text = .ok t) ↔ ∃ c, Denotes (kinds cs) c) ∧
      (∀ t c, parseTree text = .ok t → Denotes (kinds cs) c →
        t.whole = (if kinds cs = [.opening, .closing] then none else some c) ∧
          t.attached = List.range t.arenaSize ∧ assemble text = .ok t) ∧
      ∀ e, parseTree text = .error e → assemble text = .error e ∧
        ((∃ before t after, tokens cs = before ++ t :: after ∧
            Viable (before.map Located.token) ∧ ¬ Viable ((before ++ [t]).map Located.token) ∧
            e.line = t.line) ∨
          (Viable (kinds cs) ∧ e.line = lastLine cs)) := by
  intro cs
  refine ⟨tokenized_iff.mpr rfl, ?_, ?_, ?_⟩
  · constructor
    · rintro ⟨t, ht⟩
      obtain ⟨c, hc, -⟩ := parseTree_iff.mp ht
      obtain ⟨d, hd, -⟩ := parse_iff.mp hc
      exact ⟨d, hd⟩
    · rintro ⟨c, hc⟩
      exact ⟨_, parseTree_iff.mpr ⟨_, parse_iff.mpr ⟨c, hc, rfl⟩, rfl⟩⟩
  · intro t c ht hc
    have hparse := parse_iff.mpr ⟨c, hc, rfl⟩
    rw [parseTree_eq_map, hparse] at ht
    obtain rfl := Except.ok.inj ht
    refine ⟨whole_ofConstituent _, ?_, ?_⟩
    · split
      · rfl
      · rw [attached_ofConstituent, arenaSize, size_ofConstituent]
    · rw [assemble_eq, parseTree_eq_map, hparse]
      rfl
  · intro e he
    refine ⟨(assemble_eq text).trans he, ?_⟩
    rw [parseTree_eq_map] at he
    cases hparse : parse text.toList with
    | ok c =>
      rw [hparse] at he
      exact absurd he (by simp [Except.map])
    | error f =>
      rw [hparse] at he
      obtain rfl := Except.error.inj he
      rcases refused_of_error hparse with htoken | ⟨hviable, _, hline⟩
      · exact .inl htoken
      · exact .inr ⟨hviable, hline⟩

/-- A text whose root has no label, with a line break in it: one item, and its tree. -/
theorem parseTree_denotes_unlabelled :
    let c : Constituent := .node "" [.node "S" [.node "a" []], .node "b" []]
    Denotes (kinds "( (S a)\n b)".toList) c ∧
      ∃ t, parseTree "( (S a)\n b)" = .ok t ∧ t.whole = some c ∧
        t.attached = List.range t.arenaSize ∧ t.arenaSize = 4 ∧
        assemble "( (S a)\n b)" = .ok t := by
  intro c
  have hS : Denotes [.opening, .atom ['S'], .atom ['a'], .closing] (.node "S" [.node "a" []]) :=
    @Denotes.bracket (some ['S']) [([.atom ['a']], .node "a" [])] (by simp)
      (List.forall_mem_singleton.mpr (.atom (by simp))) (by simp)
  have hb : Denotes [.atom ['b']] (.node "b" []) := .atom (by simp)
  have hkinds : kinds "( (S a)\n b)".toList = [.opening, .opening, .atom ['S'], .atom ['a'],
      .closing, .atom ['b'], .closing] := by decide
  have hc : Denotes (kinds "( (S a)\n b)".toList) c := by
    rw [hkinds]
    exact @Denotes.bracket none [(_, _), (_, _)] (by simp)
      (List.forall_mem_cons.mpr ⟨hS, List.forall_mem_singleton.mpr hb⟩) (by simp)
  have ht : parseTree "( (S a)\n b)" = .ok (ofConstituent (some c)) := rfl
  obtain ⟨hwhole, hattached, hassemble⟩ := (parseTree_denotes _).2.2.1 _ c ht hc
  rw [hkinds, if_neg (by simp)] at hwhole
  exact ⟨hc, _, ht, hwhole, hattached, rfl, hassemble⟩

end Bracket

end Constituency
