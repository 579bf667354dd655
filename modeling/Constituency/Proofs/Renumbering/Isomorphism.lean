import Constituency.Proofs.Renumbering.Surgery
import Constituency.Proofs.Search.Known

/-!
# Only the bracketed tree matters

A labelled tree can be held in an arena in many ways: the numbers of its nodes depend on the order
in which they were added, copies and deleted nodes lie between them, and the revision counts
whatever was done. Here it is shown that neither a search nor a process can tell two such arenas
apart.

Both are compared with a third one, the arena that holds the same labelled tree and nothing else,
its nodes numbered in pre-order (`compact`). Every well-formed arena is a renumbering of it
(`WellFormed.twins`): its attached nodes, listed in pre-order, are the numbers that the nodes of the
compact arena have there.
-/

namespace Constituency

namespace Tree

/-- The attached part of the second tree has the shape, the order and the labels of that of the
first; `g` says which node stands for which. -/
structure Isomorphism (g : NodeId → NodeId) (t u : Tree) : Prop where
  root : u.root = t.root.map g
  label : ∀ n ∈ t.attached, u.label (g n) = t.label n
  children : ∀ n ∈ t.attached, u.children (g n) = (t.children n).map g

variable {f g : NodeId → NodeId} {t u : Tree}

/-! ## The compact arena -/

/-- The arena with the attached nodes alone, numbered in pre-order. -/
def compact (t : Tree) : Tree := { ofConstituent t.whole with revision := 0 }

theorem wellFormed_compact (t : Tree) : t.compact.WellFormed :=
  (wellFormed_ofConstituent t.whole).of_sameLinks ⟨rfl, rfl, fun _ => rfl, fun _ => rfl⟩

/-- The number that a node of the compact arena has in the arena it was made from, and numbers for
the nodes that both will get. -/
def numbering (t : Tree) (n : NodeId) : NodeId :=
  t.attached[n]?.getD (t.nodes.size + (n - t.attached.length))

theorem length_preorder (t : Tree) (n : NodeId) :
    (t.preorder n).length = (t.constituent n).size := by
  rw [preorder, Rose.length_preorder, constituent, Rose.size_map]

theorem size_compact (t : Tree) : t.compact.nodes.size = t.attached.length := by
  unfold compact whole attached
  cases t.root with
  | none => rfl
  | some r =>
    show (ofConstituent (some (t.constituent r))).nodes.size = (t.preorder r).length
    rw [size_ofConstituent, length_preorder]

theorem numbering_of_lt {n : NodeId} (hn : n < t.attached.length) :
    t.numbering n = t.attached[n] := by
  rw [numbering, List.getElem?_eq_getElem hn, Option.getD_some]

theorem numbering_add (t : Tree) (i : Nat) :
    t.numbering (t.attached.length + i) = t.nodes.size + i := by
  rw [numbering, List.getElem?_eq_none (Nat.le_add_right ..), Option.getD_none,
    Nat.add_sub_cancel_left]

theorem WellFormed.numbering_injective (h : t.WellFormed) : Function.Injective t.numbering := by
  have hknown : ∀ {n : NodeId} (hn : n < t.attached.length), t.numbering n < t.nodes.size := by
    intro n hn
    rw [numbering_of_lt hn]
    exact h.lt_size_of_mem_attached (List.getElem_mem hn)
  intro a b hab
  -- attached nodes differ from each other, and from all numbers beyond the arena
  rcases Nat.lt_or_ge a t.attached.length with ha | ha
  · rcases Nat.lt_or_ge b t.attached.length with hb | hb
    · rw [numbering_of_lt ha, numbering_of_lt hb] at hab
      exact (h.attached_nodup.getElem_inj_iff).mp hab
    · obtain ⟨j, rfl⟩ := Nat.exists_eq_add_of_le hb
      have hlt := hknown ha
      rw [hab, numbering_add] at hlt
      exact absurd hlt (Nat.not_lt.mpr (Nat.le_add_right ..))
  · obtain ⟨i, rfl⟩ := Nat.exists_eq_add_of_le ha
    rcases Nat.lt_or_ge b t.attached.length with hb | hb
    · have hlt := hknown hb
      rw [← hab, numbering_add] at hlt
      exact absurd hlt (Nat.not_lt.mpr (Nat.le_add_right ..))
    · obtain ⟨j, rfl⟩ := Nat.exists_eq_add_of_le hb
      rw [numbering_add, numbering_add] at hab
      rw [Nat.add_left_cancel hab]

/-! ## Laying out what an arena shows -/

/-- The numbers from `base` on stand for the listed nodes. -/
def Lists (f : NodeId → NodeId) (base : NodeId) (ids : List NodeId) : Prop :=
  ∀ i n, ids[i]? = some n → f (base + i) = n

theorem lists_cons {base n : NodeId} {ids : List NodeId} (h : Lists f base (n :: ids)) :
    f base = n ∧ Lists f (base + 1) ids := by
  refine ⟨h 0 n rfl, ?_⟩
  intro i m hm
  rw [Nat.add_assoc, Nat.add_comm 1 i]
  exact h (i + 1) m hm

theorem lists_append {base : NodeId} {ids js : List NodeId} (h : Lists f base (ids ++ js)) :
    Lists f base ids ∧ Lists f (base + ids.length) js := by
  constructor
  · intro i n hn
    refine h i n ?_
    rwa [List.getElem?_append_left (List.getElem?_eq_some_iff.mp hn).1]
  · intro i n hn
    rw [Nat.add_assoc]
    refine h (ids.length + i) n ?_
    rwa [List.getElem?_append_right (Nat.le_add_right ..), Nat.add_sub_cancel_left]

/-- What the arena holds at a number. -/
def entry (t : Tree) (n : NodeId) : Node := ⟨t.label n, t.parent n, t.children n⟩

theorem getElem?_eq_entry {n : NodeId} (hn : n < t.nodes.size) :
    t.nodes[n]? = some (t.entry n) := by
  simp only [entry, label, parent, children, Array.getElem?_eq_getElem hn]

namespace WellFormed

theorem roots_constituent (h : t.WellFormed) (ids : List NodeId) {base : NodeId}
    (hf : Lists f base (ids.flatMap t.preorder)) :
    (Rose.roots base (ids.map t.constituent)).map f = ids := by
  induction ids generalizing base with
  | nil => rfl
  | cons n ids ih =>
    rw [List.flatMap_cons] at hf
    obtain ⟨hfirst, hrest⟩ := lists_append hf
    rw [h.preorder_eq] at hfirst
    rw [length_preorder] at hrest
    rw [List.map_cons, Rose.roots, List.map_cons, ih hrest, (lists_cons hfirst).1]

/-- **A constituent that is laid out elsewhere has the same nodes**, up to their numbers. -/
theorem layout_constituent (h : t.WellFormed) (n : NodeId) {base : NodeId}
    {parent : Option NodeId} (hf : Lists f base (t.preorder n))
    (hparent : parent.map f = t.parent n) :
    ((t.constituent n).layout base parent).map (Node.renumber f) = (t.preorder n).map t.entry := by
  induction n using h.down_induction generalizing base parent with
  | step n ih =>
    rw [h.preorder_eq] at hf ⊢
    obtain ⟨hbase, hbelow⟩ := lists_cons hf
    -- the children, from any of them on, are laid out one after the other
    have hall : ∀ (ids : List NodeId) {next : NodeId}, (∀ c ∈ ids, c ∈ t.children n) →
        Lists f next (ids.flatMap t.preorder) →
        (Rose.layoutAll next base (ids.map t.constituent)).map (Node.renumber f) =
          (ids.flatMap t.preorder).map t.entry := by
      intro ids
      induction ids with
      | nil => exact fun _ _ => rfl
      | cons c ids ihids =>
        intro next hsub hlists
        rw [List.flatMap_cons] at hlists
        obtain ⟨hfirst, hrest⟩ := lists_append hlists
        rw [length_preorder] at hrest
        have hc := hsub c (List.mem_cons_self ..)
        have hlink : (some base).map f = t.parent c := by
          rw [Option.map_some, hbase, (h.mem_children_iff n c).mp hc]
        rw [List.map_cons, Rose.layoutAll, List.map_append, List.flatMap_cons, List.map_append,
          ih c hc hfirst hlink, ihids (fun x hx => hsub x (List.mem_cons_of_mem c hx)) hrest]
    rw [h.constituent_eq, Rose.layout, List.map_cons, List.map_cons,
      hall _ (fun _ hc => hc) hbelow]
    congr 1
    rw [Node.renumber, hparent, h.roots_constituent _ hbelow, entry]

theorem lists_numbering {r : NodeId} (hr : t.root = some r) :
    Lists t.numbering 0 (t.preorder r) := by
  have hattached : t.attached = t.preorder r := by rw [attached, hr]
  intro i n hn
  rw [← hattached] at hn
  rw [Nat.zero_add, numbering, hn, Option.getD_some]

/-- **Every well-formed arena is a renumbering of the compact one.** -/
theorem twins (h : t.WellFormed) : Twins t.numbering t.revision t.compact t := by
  have hroot : t.root = t.compact.root.map t.numbering := by
    unfold compact whole
    cases hr : t.root with
    | none => rfl
    | some r =>
      have hfirst := lists_numbering hr 0 r (by rw [h.preorder_eq]; rfl)
      exact congrArg some hfirst.symm
  have hlayout : t.compact.nodes.toList.map (Node.renumber t.numbering) =
      t.attached.map t.entry := by
    unfold compact whole attached
    cases hr : t.root with
    | none => rfl
    | some r =>
      exact h.layout_constituent r (lists_numbering hr) (h.root_top r hr).symm
  have hnode : ∀ n, t.nodes[t.numbering n]? =
      t.compact.nodes[n]?.map (Node.renumber t.numbering) := by
    intro n
    rcases Nat.lt_or_ge n t.attached.length with hn | hn
    · have hknown := h.lt_size_of_mem_attached (List.getElem_mem hn)
      rw [numbering_of_lt hn, getElem?_eq_entry hknown, ← Array.getElem?_toList,
        ← List.getElem?_map, hlayout, List.getElem?_map, List.getElem?_eq_getElem hn,
        Option.map_some]
    · obtain ⟨i, rfl⟩ := Nat.exists_eq_add_of_le hn
      rw [numbering_add, Array.getElem?_eq_none (Nat.le_add_right ..),
        Array.getElem?_eq_none (by rw [size_compact]; exact hn), Option.map_none]
  refine ⟨⟨h.numbering_injective, hnode, ?_, hroot, (Nat.zero_add _).symm⟩,
    wellFormed_compact t, h⟩
  intro i
  rw [size_compact, numbering_add]

end WellFormed

/-! ## Isomorphic attached parts -/

theorem WellFormed.mem_attached_of_child (h : t.WellFormed) {n c : NodeId} (hn : n ∈ t.attached)
    (hc : c ∈ t.children n) : c ∈ t.attached := by
  rw [h.mem_attached_iff, h.isAttached_of_parent ((h.mem_children_iff n c).mp hc)]
  exact h.mem_attached_iff.mp hn

theorem WellFormed.root_mem_attached (h : t.WellFormed) {r : NodeId} (hr : t.root = some r) :
    r ∈ t.attached := by
  rw [attached, hr]
  dsimp only
  rw [h.preorder_eq]
  exact List.mem_cons_self ..

namespace Isomorphism

variable (h : Isomorphism g t u) (ht : t.WellFormed) (hu : u.WellFormed)

include h ht hu

theorem constituent (n : NodeId) (hn : n ∈ t.attached) :
    u.constituent (g n) = t.constituent n := by
  induction n using ht.down_induction with
  | step n ih =>
    rw [hu.constituent_eq, ht.constituent_eq, h.label n hn, h.children n hn, List.map_map]
    congr 1
    exact List.map_congr_left fun c hc => ih c hc (ht.mem_attached_of_child hn hc)

theorem preorder (n : NodeId) (hn : n ∈ t.attached) :
    u.preorder (g n) = (t.preorder n).map g := by
  induction n using ht.down_induction with
  | step n ih =>
    rw [hu.preorder_eq, ht.preorder_eq, h.children n hn, List.flatMap_map, List.map_cons,
      List.map_flatMap]
    congr 1
    exact List.flatMap_congr fun c hc => ih c hc (ht.mem_attached_of_child hn hc)

theorem whole : u.whole = t.whole := by
  unfold Tree.whole
  rw [h.root]
  cases hr : t.root with
  | none => rfl
  | some r => exact congrArg some (h.constituent ht hu r (ht.root_mem_attached hr))

theorem attached : u.attached = t.attached.map g := by
  have hpreorder : ∀ r, t.root = some r → u.preorder (g r) = (t.preorder r).map g :=
    fun r hr => h.preorder ht hu r (ht.root_mem_attached hr)
  unfold Tree.attached
  rw [h.root]
  cases hr : t.root with
  | none => rfl
  | some r => exact hpreorder r hr

/-- What stands for a node of the compact arena in one tree stands for it in the other. -/
theorem numbering {n : NodeId} (hn : n < t.compact.nodes.size) :
    u.numbering n = g (t.numbering n) := by
  rw [size_compact] at hn
  have hattached := h.attached ht hu
  have hn' : n < u.attached.length := by rwa [hattached, List.length_map]
  rw [numbering_of_lt hn, numbering_of_lt hn']
  simp only [hattached, List.getElem_map]

end Isomorphism

/-- The attached node of the second tree at the place that a node has in the first. -/
def counterpart (t u : Tree) (n : NodeId) : NodeId :=
  u.attached[t.attached.idxOf n]?.getD n

theorem counterpart_numbering (ht : t.WellFormed) {n : NodeId} (hn : n < t.attached.length)
    (hu : n < u.attached.length) : t.counterpart u (t.numbering n) = u.numbering n := by
  rw [counterpart, numbering_of_lt hn, numbering_of_lt hu, ht.attached_nodup.idxOf_getElem,
    List.getElem?_eq_getElem hu, Option.getD_some]

/-- **The attached parts of two trees are isomorphic if they show the same labelled tree.** -/
theorem isomorphism_counterpart (ht : t.WellFormed) (hu : u.WellFormed)
    (hwhole : u.whole = t.whole) : Isomorphism (t.counterpart u) t u := by
  have hsource := ht.twins
  have htarget := hu.twins
  rw [show u.compact = t.compact by rw [compact, hwhole, compact]] at htarget
  -- the nodes of the compact arena are those of both attached parts
  have hsize : u.attached.length = t.attached.length := by
    rw [htarget.attached, hsource.attached, List.length_map, List.length_map]
  have hnode : ∀ n, n < t.compact.nodes.size → t.counterpart u (t.numbering n) = u.numbering n := by
    intro n hn
    rw [size_compact] at hn
    exact counterpart_numbering ht hn (by rwa [hsize])
  have hattached : ∀ n ∈ t.attached, ∃ c, c < t.compact.nodes.size ∧ t.numbering c = n := by
    intro n hn
    rw [hsource.attached] at hn
    obtain ⟨c, hc, rfl⟩ := List.mem_map.mp hn
    exact ⟨c, t.wellFormed_compact.lt_size_of_mem_attached hc, rfl⟩
  have hmap : ∀ cs : List NodeId, (∀ c ∈ cs, c < t.compact.nodes.size) →
      cs.map u.numbering = (cs.map t.numbering).map (t.counterpart u) := by
    intro cs hcs
    rw [List.map_map]
    exact List.map_congr_left fun c hc => (hnode c (hcs c hc)).symm
  refine ⟨?_, ?_, ?_⟩
  · rw [htarget.root, hsource.root]
    cases hr : t.compact.root with
    | none => rfl
    | some r => exact congrArg some (hnode r (t.wellFormed_compact.root_known r hr)).symm
  · intro n hn
    obtain ⟨c, hc, rfl⟩ := hattached n hn
    rw [hnode c hc, htarget.label, hsource.label]
  · intro n hn
    obtain ⟨c, hc, rfl⟩ := hattached n hn
    rw [hnode c hc, htarget.children, hsource.children]
    exact hmap _ fun x hx => t.wellFormed_compact.child_lt_size hx

/-- To be isomorphic is to show the same labelled tree. -/
theorem exists_isomorphism_iff (ht : t.WellFormed) (hu : u.WellFormed) :
    (∃ g, Isomorphism g t u) ↔ u.whole = t.whole :=
  ⟨fun ⟨_, h⟩ => h.whole ht hu, fun h => ⟨_, isomorphism_counterpart ht hu h⟩⟩

end Tree

/-! ## Matches -/

theorem Match.renumber_renumber (f g : NodeId → NodeId) (m : Match) :
    (m.renumber f).renumber g = m.renumber (g ∘ f) := by
  unfold renumber Bindings.renumber
  rw [List.map_map, Option.map_comp_map]
  rfl

/-- Bindings have nothing to do with nodes that are not in the arena. -/
theorem Bindings.renumber_congr {f g : NodeId → NodeId} {n : Nat} {b : Bindings} (hb : b.Known n)
    (h : ∀ x, x < n → f x = g x) : b.renumber f = b.renumber g := by
  refine List.map_congr_left fun o ho => ?_
  cases o with
  | none => rfl
  | some x => exact congrArg some (h x (hb x ho))

theorem Match.renumber_congr {f g : NodeId → NodeId} {n : Nat} {m : Match} (hm : m.Known n)
    (h : ∀ x, x < n → f x = g x) : m.renumber f = m.renumber g := by
  rw [renumber, renumber, h m.root hm.root, Bindings.renumber_congr hm.bindings h]

/-! ## Searches and processes -/

/-- **Searches and processes depend on the bracketed tree alone.** -/
theorem Tree.Isomorphism.search_and_process {g : NodeId → NodeId} {t u : Tree}
    (h : Isomorphism g t u) (ht : t.WellFormed) (hu : u.WellFormed) :
    (∀ (p : Pattern) (mode : Mode), p.search mode u = (p.search mode t).map (Match.renumber g)) ∧
    (∀ (r : Rule) (limit : Nat), (r.run limit u).1.render = (r.run limit t).1.render ∧
      (r.run limit u).2 = (r.run limit t).2) ∧
    ∀ (rs : List Rule) (limit : Nat),
      (Rule.runAll limit rs u).1.render = (Rule.runAll limit rs t).1.render ∧
      (Rule.runAll limit rs u).2 = (Rule.runAll limit rs t).2 := by
  have hcompact : u.compact = t.compact := by
    unfold compact
    rw [h.whole ht hu]
  have hsource := ht.twins
  have htarget := hu.twins
  rw [hcompact] at htarget
  refine ⟨?_, ?_, ?_⟩
  · intro p mode
    rw [p.search_renumber htarget, p.search_renumber hsource, List.map_map]
    refine List.map_congr_left fun m hm => ?_
    have hknown := p.search_known t.wellFormed_compact mode m hm
    show m.renumber u.numbering = (m.renumber t.numbering).renumber g
    rw [Match.renumber_renumber]
    exact Match.renumber_congr hknown fun x hx => h.numbering ht hu hx
  · intro r limit
    obtain ⟨ht', hreport⟩ := r.run_renumber limit hsource
    obtain ⟨hu', hreport'⟩ := r.run_renumber limit htarget
    rw [render, render, ht'.whole, hu'.whole, hreport, hreport']
    exact ⟨rfl, rfl⟩
  · intro rs limit
    obtain ⟨ht', hreport⟩ := Rule.runAll_renumber limit rs hsource
    obtain ⟨hu', hreport'⟩ := Rule.runAll_renumber limit rs htarget
    rw [render, render, ht'.whole, hu'.whole, hreport, hreport']
    exact ⟨rfl, rfl⟩

/-- The tree `(S A B)` as it is read from its text, and as it is put together from its last node to
its first with a node left over: the nodes `S`, `A`, `B` have the numbers 0, 1, 2 and 3, 1, 0. -/
theorem Tree.Isomorphism.search_and_process_of_reversed :
    let t := Tree.ofConstituent (some (.node "S" [.node "A" [], .node "B" []]))
    let v := ((((Tree.empty.addNode "B").1.addNode "A").1.addNode "X").1.addNode "S").1
    let u := ((v.insertChild 3 0 1).1.insertChild 3 1 0).1.setRoot (some 3)
    let g : NodeId → NodeId := fun n => [3, 1, 0].getD n n
    let p : Pattern :=
      ⟨"A=a", .mk ⟨false, .oneOf [.literal "A"], []⟩ (some 0) none, ["a"], [true], []⟩
    let r : Rule := ⟨p, ⟨"delete a", [.delete ["a"]], []⟩⟩
    Isomorphism g t u ∧ t.WellFormed ∧ u.WellFormed ∧
      p.search .allBindings u = (p.search .allBindings t).map (Match.renumber g) ∧
      (r.run 2 u).1.render = (r.run 2 t).1.render ∧ (r.run 2 u).2 = (r.run 2 t).2 := by
  intro t v u g p r
  have h : Isomorphism g t u := ⟨rfl, by decide, by decide⟩
  have ht : t.WellFormed := wellFormed_ofConstituent _
  have hv : v.WellFormed := (((wellFormed_empty.graft _).graft _).graft _).graft _
  have hlinked : (v.insertChild 3 0 1).1.WellFormed := hv.insertChild 0 (by decide) (by decide)
  have hu : u.WellFormed :=
    (hlinked.insertChild 1 (by decide) (by decide)).setRoot fun n hn => by
      obtain rfl := Option.some.inj hn
      decide
  obtain ⟨hsearch, hrun, _⟩ := h.search_and_process ht hu
  exact ⟨h, ht, hu, hsearch p .allBindings, hrun r 2⟩

end Constituency
