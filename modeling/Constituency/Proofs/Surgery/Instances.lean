import Constituency.Proofs.Surgery.Templates
import Constituency.Proofs.Tree.Copies

/-!
# What is made from a template

A template is copied to the end of the arena, with its marks taken off and every hole filled with a
copy of a node (`Rose.plug`). Filling a hole puts more below it and nothing elsewhere, so that the
other nodes of the template have their copies at the same addresses. The nodes that its names and
its foot come to be are read off the same numbering of the copy (`exists_made`), which is why
each of them is the copy of the node with the mark (`instantiate_made`).

To make the copy node by node, inserting every child below its parent, is the same
(`copyTemplate_eq`): the nodes for the holes have been there before and keep what is below them
while the arena grows.
-/

namespace Constituency

open Constituency.Tree Constituency.Surgery

namespace Rose

mutual

/-- A template with its marks taken off and its holes filled. -/
def plug (shown : String → Constituent) : Rose Slot → Constituent
  | .node (.hole name) _ => shown name
  | .node (.node l _ _) rs => .node l (plugAll shown rs)

/-- Several templates with their marks taken off and their holes filled. -/
def plugAll (shown : String → Constituent) : List (Rose Slot) → List Constituent
  | [] => []
  | r :: rs => r.plug shown :: plugAll shown rs

end

variable {ε : Type} {find : String → Except ε Constituent} {shown : String → Constituent}

mutual

theorem map_fst_fill (hshown : ∀ name c, find name = .ok c → shown name = c)
    {filled : Rose (Label × Option Slot)} : ∀ r : Rose Slot, r.fill find = .ok filled →
    filled.map Prod.fst = r.plug shown
  | .node (.hole name) rs, h => by
    rw [fill] at h
    obtain ⟨c, hc, h⟩ := bind_eq_ok.mp h
    obtain rfl := Except.ok.inj h
    rw [plug, hshown name c hc, map_map]
    exact map_id c
  | .node (.node l n isFoot) rs, h => by
    obtain ⟨below, hbelow, rfl⟩ := Template.fill_node_eq_ok.mp h
    rw [map, plug, mapAll_fst_fillAll hshown rs hbelow]

theorem mapAll_fst_fillAll (hshown : ∀ name c, find name = .ok c → shown name = c)
    {filled : List (Rose (Label × Option Slot))} : ∀ rs : List (Rose Slot),
    fillAll find rs = .ok filled → mapAll Prod.fst filled = plugAll shown rs
  | [], h => by
    rw [fillAll] at h
    obtain rfl := Except.ok.inj h
    rfl
  | r :: rs, h => by
    rw [fillAll] at h
    obtain ⟨first, hfirst, h⟩ := bind_eq_ok.mp h
    obtain ⟨others, hothers, h⟩ := bind_eq_ok.mp h
    obtain rfl := Except.ok.inj h
    rw [mapAll, plugAll, map_fst_fill hshown r hfirst,
      mapAll_fst_fillAll hshown rs hothers]

end

/-- Several templates are filled one by one. -/
theorem getElem?_fillAll {filled : List (Rose (Label × Option Slot))} : ∀ {rs : List (Rose Slot)},
    fillAll find rs = .ok filled → filled.length = rs.length ∧
      ∀ (i : Nat) (r : Rose Slot), rs[i]? = some r →
        ∃ d, filled[i]? = some d ∧ r.fill find = .ok d
  | [], h => by
    rw [fillAll] at h
    obtain rfl := Except.ok.inj h
    exact ⟨rfl, fun i r hr => absurd hr (by simp)⟩
  | r :: rs, h => by
    rw [fillAll] at h
    obtain ⟨first, hfirst, h⟩ := bind_eq_ok.mp h
    obtain ⟨others, hothers, h⟩ := bind_eq_ok.mp h
    obtain rfl := Except.ok.inj h
    obtain ⟨hlength, hrest⟩ := getElem?_fillAll hothers
    refine ⟨by rw [List.length_cons, List.length_cons, hlength], fun i d hd => ?_⟩
    cases i with
    | zero =>
      obtain rfl := Option.some.inj hd
      exact ⟨first, rfl, hfirst⟩
    | succ i => exact hrest i d hd

end Rose

/-! ## Addresses in filled templates -/

namespace Template

variable {ε : Type} {find : String → Except ε Constituent}
  {filled : Rose (Label × Option Slot)} {is : List Nat}

theorem markAll_eq_map (cs : List Constituent) : markAll cs = cs.map mark := by
  induction cs with
  | nil => rfl
  | cons c cs ih => rw [markAll, ih, List.map_cons]

/-- **What stands at an address of a template is filled at the same address.** -/
theorem at?_fill {c : Constituent} {r : Rose Slot} (h : (mark c).fill find = .ok filled)
    (hr : (mark c).at? is = some r) : ∃ d, filled.at? is = some d ∧ r.fill find = .ok d := by
  induction is generalizing c filled with
  | nil =>
    obtain rfl := Option.some.inj hr
    exact ⟨filled, rfl, h⟩
  | cons i is ih =>
    obtain ⟨l, cs⟩ := c
    rw [mark] at h hr
    obtain ⟨r', hr', hr⟩ := Option.bind_eq_some_iff.mp hr
    rw [Rose.children] at hr'
    cases hslot : Slot.ofLabel cs.isEmpty l with
    | hole n =>
      -- nothing stands below a hole
      rw [List.isEmpty_iff.mp (ofLabel_eq_hole hslot)] at hr'
      exact absurd hr' (by simp [markAll])
    | node l' n isFoot =>
      rw [hslot] at h
      obtain ⟨below, hbelow, rfl⟩ := fill_node_eq_ok.mp h
      obtain ⟨d, hd, hfill⟩ := (Rose.getElem?_fillAll hbelow).2 i r' hr'
      rw [markAll_eq_map, List.getElem?_map] at hr'
      obtain ⟨c', _, rfl⟩ := Option.map_eq_some_iff.mp hr'
      obtain ⟨e, he, hre⟩ := ih hfill hr
      exact ⟨e, Option.bind_eq_some_iff.mpr ⟨d, hd, he⟩, hre⟩

/-- **A node of a filled template comes to be a node at the same address**, and is numbered as it
is when names are given. -/
theorem exists_made {t : Tree} (h : t.WellFormed) {d : Rose (Label × Option Slot)}
    (hd : filled.at? is = some d) :
    let u := (t.graft (filled.map Prod.fst)).1
    ∃ x, (u.below t.nodes.size).at? is = some (u.below x) ∧ u.constituent x = d.map Prod.fst ∧
      (d.value, x) ∈ filled.preorder.zipIdx t.nodes.size := by
  intro u
  -- the node with its number
  have hnumbered := congrArg (fun r => r.at? is) (filled.map_fst_numbered t.nodes.size)
  rw [Rose.at?_map, hd] at hnumbered
  obtain ⟨e, he, rfl⟩ := Option.map_eq_some_iff.mp hnumbered
  have hbelow : (u.below t.nodes.size).at? is = some (e.map Prod.snd) := by
    rw [below_graft, Rose.numbered_map, Rose.map_map, Rose.at?_map, he]
    rfl
  have hnode := (h.graft _).at?_below hbelow
  rw [Rose.value_map] at hnode
  refine ⟨e.value.2, hnode ▸ hbelow, ?_, ?_⟩
  · have hshown := congrArg (fun c => c.at? is) (constituent_graft t (filled.map Prod.fst))
    rw [Tree.constituent, Rose.at?_map, hbelow, Rose.at?_map, hd, hnode] at hshown
    exact Option.some.inj hshown
  · have hmem := Rose.mem_preorder_of_at? he
    rw [Rose.preorder_numbered] at hmem
    rwa [Rose.value_map]

/-! ## Names and feet -/

/-- The only element that satisfies a condition is the first. -/
theorem find?_of_countP_le_one {α : Type} {p : α → Bool} {as : List α} {a : α}
    (h : as.countP p ≤ 1) (ha : a ∈ as) (hp : p a = true) : as.find? p = some a := by
  induction as with
  | nil => exact absurd ha List.not_mem_nil
  | cons b as ih =>
    cases hb : p b with
    | true =>
      rw [List.countP_cons_of_pos hb] at h
      have hnone := List.countP_eq_zero.mp (Nat.le_zero.mp (Nat.le_of_succ_le_succ h))
      rw [List.find?_cons_of_pos hb]
      rcases List.mem_cons.mp ha with rfl | ha
      · rfl
      · exact absurd hp (hnone a ha)
    | false =>
      have hnot : ¬ p b = true := by rw [hb]; exact Bool.false_ne_true
      rw [List.countP_cons_of_neg hnot] at h
      rw [List.find?_cons_of_neg hnot]
      refine ih h ((List.mem_cons.mp ha).resolve_left ?_)
      rintro rfl
      exact hnot hp

section feet

variable (root : NodeId) {c : Constituent} (hfill : (mark c).fill find = .ok filled)

include hfill

/-- Filling a template makes no feet and loses none. -/
theorem countP_foot_fill :
    (filled.preorder.zipIdx root).countP (fun made => made.1.2.any Slot.isFoot) =
      (mark c).preorder.countP Slot.isFoot := by
  have hslots := congrArg (List.countP Slot.isFoot) (slots_fill c hfill)
  rw [List.countP_filterMap, List.countP_filter] at hslots
  have hmade : (filled.preorder.zipIdx root).countP (fun made => made.1.2.any Slot.isFoot) =
      filled.preorder.countP fun made => made.2.any Slot.isFoot := by
    have hfirst := congrArg (List.countP fun made : Label × Option Slot => made.2.any Slot.isFoot)
      (List.zipIdx_map_fst root filled.preorder)
    rwa [List.countP_map] at hfirst
  rw [hmade]
  refine Eq.trans (List.countP_congr fun made _ => ?_)
    (hslots.trans (List.countP_congr fun slot _ => ?_))
  · cases made.2 <;> rfl
  · -- holes are no feet
    cases slot <;> simp [Slot.asked?, Slot.isFoot]

variable {root}

theorem footIn_of_mem (hfeet : (mark c).preorder.countP Slot.isFoot ≤ 1)
    {made : Label × Option Slot} {x : NodeId} (hmem : (made, x) ∈ filled.preorder.zipIdx root)
    (hfoot : made.2.any Slot.isFoot = true) : footIn filled root = some x := by
  rw [← countP_foot_fill root hfill] at hfeet
  rw [footIn, find?_of_countP_le_one hfeet hmem hfoot]
  rfl

theorem footIn_isSome : (footIn filled root).isSome = (mark c).preorder.any Slot.isFoot := by
  have hcount := countP_foot_fill root hfill
  rw [footIn, Option.isSome_map, Bool.eq_iff_iff, List.find?_isSome, List.any_eq_true,
    ← List.countP_pos_iff (p := Slot.isFoot), ← hcount, List.countP_pos_iff]

end feet

end Template

/-! ## Making a template node by node -/

namespace Tree

mutual

/-- Makes a template at the end of an arena, node by node. A hole becomes a copy of a node; every
other node is new and gets its children one after the other. -/
def copyTemplate (find : String → NodeId) (t : Tree) : Rose Slot → Tree × NodeId
  | .node (.hole name) _ => t.copySubtree (find name)
  | .node (.node l _ _) rs => (copyTemplates find t.nodes.size (t.addNode l).1 rs, t.nodes.size)

/-- Makes several templates below a node. -/
def copyTemplates (find : String → NodeId) (parent : NodeId) (t : Tree) : List (Rose Slot) → Tree
  | [] => t
  | r :: rs =>
    let (u, child) := copyTemplate find t r
    copyTemplates find parent (u.pushChild parent child).1 rs

end

/-- Nodes show what they are known to show. -/
def Shows (t : Tree) (find : String → NodeId) (shown : String → Constituent)
    (names : List String) : Prop :=
  ∀ name ∈ names, find name < t.nodes.size ∧ t.constituent (find name) = shown name

variable {t u : Tree} {find : String → NodeId} {shown : String → Constituent}

/-- In a growing arena they go on to. -/
theorem Shows.grown {names : List String} (hs : t.Shows find shown names) (h : t.WellFormed)
    (hu : Grown t u) : u.Shows find shown names := by
  intro name hname
  obtain ⟨hlt, hshown⟩ := hs name hname
  exact ⟨Nat.lt_of_lt_of_le hlt hu.size_le, (hu.constituent_eq h hlt).trans hshown⟩

mutual

/-- **Made node by node or at once, the copy is the same.** -/
theorem copyTemplate_eq {t : Tree} : ∀ r : Rose Slot, t.WellFormed →
    t.Shows find shown (r.preorder.filterMap Slot.asked?) →
    t.copyTemplate find r = t.graft (r.plug shown)
  | .node (.hole name) rs, _, hs => by
    rw [copyTemplate, copySubtree, (hs name (List.mem_cons_self ..)).2, Rose.plug]
  | .node (.node l n isFoot) rs, h, hs => by
    rw [copyTemplate, addNode, copyTemplates_eq rs [] h hs, Rose.plug, List.nil_append]
    rfl

theorem copyTemplates_eq {t : Tree} {l : Label} : ∀ (rs : List (Rose Slot)) (ds : List Constituent),
    t.WellFormed → t.Shows find shown ((Rose.preorderAll rs).filterMap Slot.asked?) →
    copyTemplates find t.nodes.size (t.graft (.node l ds)).1 rs =
      (t.graft (.node l (ds ++ Rose.plugAll shown rs))).1
  | [], ds, _, _ => by rw [copyTemplates, Rose.plugAll, List.append_nil]
  | r :: rs, ds, h, hs => by
    rw [Rose.preorderAll, List.filterMap_append] at hs
    have hfirst : t.Shows find shown (r.preorder.filterMap Slot.asked?) := fun name hname =>
      hs name (List.mem_append_left _ hname)
    have hcopy := copyTemplate_eq r (h.graft (.node l ds)) (hfirst.grown h (.single t _))
    have hpush := h.pushChild_graft l ds (r.plug shown)
    rw [copyTemplates, hcopy]
    dsimp only at hpush ⊢
    rw [snd_graft, hpush]
    rw [copyTemplates_eq rs (ds ++ [r.plug shown]) h fun name hname =>
      hs name (List.mem_append_right _ hname), Rose.plugAll, List.append_assoc]
    rfl

end

end Tree

/-! ## What is made -/

namespace Surgery

variable {s : Surgery} {name : String} {id : NodeId}

/-- The node of a name that has one. -/
def holder (s : Surgery) (name : String) : NodeId := (s.node? name).getD 0

theorem holder_of_fetch (h : s.fetch name = .ok id) : s.holder name = id := by
  rw [holder, (fetch_eq_ok_iff.mp h).1]
  rfl

/-- Names that resolve have nodes that show what they show. -/
theorem Resolves.shows {names : List String} (h : s.Resolves names) :
    s.tree.Shows s.holder (fun name => s.tree.constituent (s.holder name)) names := by
  intro name hname
  obtain ⟨id, hid⟩ := h name hname
  refine ⟨?_, rfl⟩
  rw [holder_of_fetch hid]
  exact (fetch_eq_ok_iff.mp hid).2

end Surgery

/-- What it means to have made a template, with its root and its foot at given nodes. -/
structure Template.Made (template : Template) (slots : Rose Slot) (s u : Surgery) (root : NodeId)
    (foot : Option NodeId) : Prop where
  added : s.tree.Added u.tree (slots.plug fun name => s.tree.constituent (s.holder name)) root
  /-- Made node by node it would be the same. -/
  eq_copyTemplate : (u.tree, root) = s.tree.copyTemplate s.holder slots
  /-- A node of the template has its copy at its address, and the marks on it are for the copy. -/
  node : ∀ (is : List Nat) (l : Label) (name : Option String) (isFoot : Bool)
    (rs : List (Rose Slot)), slots.at? is = some (.node (.node l name isFoot) rs) →
    ∃ x, (u.tree.below root).at? is = some (u.tree.below x) ∧ u.tree.label x = l ∧
      (u.tree.children x).length = rs.length ∧ (∀ n, name = some n → u.fetch n = .ok x) ∧
      (isFoot = true → foot = some x)
  /-- At the address of a hole there is what the node of its name shows. -/
  hole : ∀ (is : List Nat) (name : String) (rs : List (Rose Slot)),
    slots.at? is = some (.node (.hole name) rs) →
    ∃ x id, (u.tree.below root).at? is = some (u.tree.below x) ∧ s.fetch name = .ok id ∧
      u.tree.constituent x = s.tree.constituent id
  foot_isSome : foot.isSome = template.foot?.isSome
  others : ∀ name, name ∉ template.declaredNames → u.node? name = s.node? name
  matched : u.matched = s.matched

namespace Template

variable {cs : List Char} {template : Template} {slots : Rose Slot} {s : Surgery}

section copies

variable {c : Constituent} {find : String → Except Obstacle Constituent}
  {filled : Rose (Label × Option Slot)} {t : Tree} {is : List Nat} {rs : List (Rose Slot)}

/-- A node of a template has its copy at its address. -/
theorem exists_copy_of_node (h : t.WellFormed) (hfill : (mark c).fill find = .ok filled)
    {l : Label} {name : Option String} {isFoot : Bool}
    (his : (mark c).at? is = some (.node (.node l name isFoot) rs)) :
    let u := (t.graft (filled.map Prod.fst)).1
    ∃ x, (u.below t.nodes.size).at? is = some (u.below x) ∧ u.label x = l ∧
      (u.children x).length = rs.length ∧
      ((l, some (.node l name isFoot)), x) ∈ filled.preorder.zipIdx t.nodes.size := by
  intro u
  obtain ⟨d, hd, hdfill⟩ := at?_fill hfill his
  obtain ⟨below, hbelow, rfl⟩ := fill_node_eq_ok.mp hdfill
  obtain ⟨x, hx, hshown, hmem⟩ := exists_made h hd
  rw [(h.graft _).constituent_eq, Rose.map] at hshown
  obtain ⟨hlabel, hchildren⟩ := Rose.node.inj hshown
  have hlength := congrArg List.length hchildren
  rw [List.length_map, Rose.mapAll_eq_map, List.length_map, (Rose.getElem?_fillAll hbelow).1]
    at hlength
  exact ⟨x, hx, hlabel, hlength, hmem⟩

/-- At the address of a hole there is what the hole was filled with. -/
theorem exists_copy_of_hole (h : t.WellFormed) (hfill : (mark c).fill find = .ok filled)
    {name : String} (his : (mark c).at? is = some (.node (.hole name) rs)) :
    let u := (t.graft (filled.map Prod.fst)).1
    ∃ x d, (u.below t.nodes.size).at? is = some (u.below x) ∧ find name = .ok d ∧
      u.constituent x = d := by
  intro u
  obtain ⟨d, hd, hdfill⟩ := at?_fill hfill his
  rw [Rose.fill] at hdfill
  obtain ⟨e, he, hdfill⟩ := bind_eq_ok.mp hdfill
  obtain rfl := Except.ok.inj hdfill
  obtain ⟨x, hx, hshown, _⟩ := exists_made h hd
  rw [Rose.map_map] at hshown
  exact ⟨x, e, hx, he, hshown.trans e.map_id⟩

/-- A declared name gets the node with which it was numbered. -/
theorem fetch_plant (hnodup : ((namesIn filled s.tree.nodes.size).map Prod.fst).Nodup)
    {made : Label × Option Slot} {x : NodeId} {name : String}
    (hmem : (made, x) ∈ filled.preorder.zipIdx s.tree.nodes.size)
    (hname : declaredBy made = some name) : (s.plant filled).fetch name = .ok x := by
  have hentry : (name, x) ∈ namesIn filled s.tree.nodes.size :=
    List.mem_filterMap.mpr ⟨_, hmem, by rw [hname]; rfl⟩
  refine fetch_eq_ok_iff.mpr
    ⟨node?_of_created (lookup_plant (lookup_eq_some_of_mem hnodup hentry)), ?_⟩
  show x < (s.tree.graft _).1.nodes.size
  rw [size_graft, Rose.size_map, ← Rose.length_preorder]
  exact List.snd_lt_add_of_mem_zipIdx hmem

/-- Names that are not declared keep their nodes. -/
theorem node?_plant {name : String}
    (hname : name ∉ (namesIn filled s.tree.nodes.size).map Prod.fst) :
    (s.plant filled).node? name = s.node? name := by
  have hnone : (namesIn filled s.tree.nodes.size).lookup name = none := by
    refine List.lookup_eq_none_iff.mpr fun entry hentry => bne_iff_ne.mpr ?_
    rintro rfl
    exact hname (List.mem_map_of_mem hentry)
  rw [plant, node?, List.lookup_append, hnone]
  rfl

end copies

/-- **A filled template that is planted has been made.** -/
theorem made_plant (hparse : parse cs = .ok template) (htree : template.tree = some slots)
    (h : s.tree.WellFormed) (hasked : s.Resolves template.askedNames)
    {filled : Rose (Label × Option Slot)} (hfill : slots.fill s.fetchConstituent = .ok filled) :
    template.Made slots s (s.plant filled) s.tree.nodes.size
      (footIn filled s.tree.nodes.size) := by
  have hslots : template.slots = slots.preorder := by rw [Template.slots, htree]
  have hfeet := countP_foot hparse
  have hnodup := nodup_declaredNames hparse
  obtain ⟨c, rfl⟩ := (isMarked_of_parse hparse).exists_mark htree
  have hplug : filled.map Prod.fst =
      (mark c).plug fun name => s.tree.constituent (s.holder name) := by
    refine Rose.map_fst_fill (fun name d hd => ?_) _ hfill
    obtain ⟨id, hid, hd⟩ := fetchConstituent_eq_ok_iff.mp hd
    rw [holder_of_fetch hid, hd]
  have hkeys := map_fst_namesIn (isMarked_of_parse hparse) htree hfill s.tree.nodes.size
  refine ⟨?_, ?_, ?_, ?_, ?_, ?_, rfl⟩
  · rw [← hplug]
    exact h.added_graft _
  · rw [copyTemplate_eq (mark c) h (by rw [askedNames, hslots] at hasked; exact hasked.shows),
      ← hplug]
    rfl
  · intro is l name isFoot rs his
    obtain ⟨x, hx, hlabel, hlength, hmem⟩ := exists_copy_of_node h hfill his
    exact ⟨x, hx, hlabel, hlength, fun n hn => fetch_plant (by rwa [hkeys]) hmem hn,
      fun hfoot => footIn_of_mem hfill (by rwa [← hslots]) hmem hfoot⟩
  · intro is name rs his
    obtain ⟨x, d, hx, hd, hshown⟩ := exists_copy_of_hole h hfill his
    obtain ⟨id, hid, rfl⟩ := fetchConstituent_eq_ok_iff.mp hd
    exact ⟨x, id, hx, hid, hshown⟩
  · rw [footIn_isSome hfill, foot?, List.findIdx?_isSome, hslots]
  · exact fun name hname => node?_plant (by rwa [hkeys])

end Template

namespace Step

/-- **A template is made of new nodes** that show it with its marks taken off and its holes filled
with what the named nodes showed before. Its names resolve to the copies of the nodes they were
written on, its foot is the copy of the foot, and no node that was there before has changed. Copies
of subtrees, of the same tree or of another one, are new in the same way. -/
theorem instantiate_made {cs : List Char} {template : Template} {slots : Rose Slot} {s : Surgery}
    (hparse : Template.parse cs = .ok template) (htree : template.tree = some slots)
    (h : s.tree.WellFormed) (hasked : s.Resolves template.askedNames) :
    (∃ u foot, (instantiate template).run.run s = (.ok (s.tree.arenaSize, foot), u) ∧
      template.Made slots s u s.tree.arenaSize foot) ∧
    (∀ t : Tree, t.WellFormed → ∀ n,
      t.Added (t.copySubtree n).1 (t.constituent n) (t.copySubtree n).2) ∧
    ∀ t other : Tree, t.WellFormed → ∀ n,
      t.Added (t.importSubtree other n).1 (other.constituent n) (t.importSubtree other n).2 := by
  refine ⟨?_, fun t ht n => ht.added_graft _, fun t other ht n => ht.added_graft _⟩
  obtain ⟨filled, hfill⟩ := hasked.fill htree
  have hends : Ends (instantiate template >>= pure) s (fun made u =>
      made = (s.tree.nodes.size, Template.footIn filled s.tree.nodes.size) ∧ u = s.plant filled)
      fun _ _ => False :=
    ends_instantiate htree hfill (Ends.of_pure ⟨rfl, rfl⟩)
  rw [bind_pure] at hends
  exact ⟨_, _, hends.run_eq, Template.made_plant hparse htree h hasked hfill⟩

/-- Around a hole for the noun phrase of `(S (NP n) v)`: the copy has numbers from 4 on. -/
theorem instantiate_made_around_hole :
    let t := Tree.ofConstituent (some (.node "S" [.node "NP" [.node "n" []], .node "v" []]))
    let s : Surgery := ⟨t, ⟨0, [some 1], ["np"]⟩, []⟩
    let read := Template.parse "(X=x =np Y=y@)".toList
    ∃ template slots, read = .ok template ∧ template.tree = some slots ∧
      s.Resolves template.askedNames ∧
      ∃ u foot, (instantiate template).run.run s = (.ok (4, foot), u) ∧
        template.Made slots s u 4 foot ∧ u.tree.preorder 4 = [4, 5, 6, 7] := by
  intro t s read
  have h : t.WellFormed := wellFormed_ofConstituent _
  have hreads : (read.toOption.map fun template => (template.askedNames,
      template.tree.map fun slots => (slots.plug fun name =>
        t.constituent (s.holder name)).size)) = some (["np"], some 4) := by decide +kernel
  cases hparse : read with
  | error e =>
    rw [hparse] at hreads
    exact absurd hreads (by simp [Except.toOption])
  | ok template =>
    rw [hparse] at hreads
    obtain ⟨hasked, hplug⟩ := Prod.mk.inj (Option.some.inj hreads)
    obtain ⟨slots, htree, hsize⟩ := Option.map_eq_some_iff.mp hplug
    have hresolves : s.Resolves template.askedNames := by
      rw [hasked]
      exact fun name hname => ⟨1, List.mem_singleton.mp hname ▸ rfl⟩
    obtain ⟨u, foot, hrun, hmade⟩ := (instantiate_made (s := s) hparse htree h hresolves).1
    refine ⟨template, slots, rfl, htree, hresolves, u, foot, hrun, hmade, ?_⟩
    have hnew := hmade.added.preorder
    rwa [hsize] at hnew

end Step

end Constituency
