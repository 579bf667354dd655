import Constituency.Proofs.Surgery.Names
import Constituency.Proofs.Tree.Rearranging

/-!
# Steps that are carried out

`Steps` says what the steps of an operation can come to. Here is what each of them does come to when
nothing hinders it: the names have their nodes, the tree admits what it is asked, and the edit is
not refused. A template then becomes the labelled tree that its filled holes make of it, detached at
the end of the arena (`Surgery.plant`), and the names on its root and on its foot get those nodes.
-/

namespace Constituency

open Constituency.Tree

namespace Surgery

/-- Whether each of some names has a node of the arena. -/
def Resolves (s : Surgery) (names : List String) : Prop :=
  ∀ name ∈ names, ∃ id, s.fetch name = .ok id

variable {s : Surgery}

/-! ## Attempts -/

/-- A step that nothing hinders is carried out without a report. -/
theorem attempt_of_ends {step : Step Unit} {done : Unit → Surgery → Prop} (keyword : String)
    (h : Ends step s done fun _ _ => False) :
    ∃ u, s.attempt keyword step = (u, []) ∧ done () u :=
  (attempt_cases keyword h).resolve_right fun ⟨_, _, _, hf⟩ => hf

/-- A step that is hindered is reported. -/
theorem attempt_ne_nil_of_ends {step : Step Unit} (keyword : String)
    (h : Ends step s (fun _ _ => False) fun _ _ => True) : (s.attempt keyword step).2 ≠ [] := by
  rcases attempt_cases keyword h with ⟨_, _, hf⟩ | ⟨o, _, hattempt, _⟩
  · exact hf.elim
  · rw [hattempt]
    exact List.cons_ne_nil _ _

end Surgery

/-! ## Filled templates -/

namespace Template

/-- The names that a filled template declares, with the nodes they get if its root is `root`. -/
def namesIn (filled : Rose (Label × Option Slot)) (root : NodeId) : List (String × NodeId) :=
  (filled.preorder.zipIdx root).filterMap fun made => (declaredBy made.1).map (·, made.2)

/-- The foot of a filled template if its root is `root`. -/
def footIn (filled : Rose (Label × Option Slot)) (root : NodeId) : Option NodeId :=
  ((filled.preorder.zipIdx root).find? fun made => made.1.2.any Slot.isFoot).map Prod.snd

/-- The name on the root of a template. -/
def rootName? (t : Template) : Option String := t.slots.head?.bind Slot.declared?

/-- The name on the foot of a template. -/
def footName? (t : Template) : Option String := (t.slots.find? Slot.isFoot).bind Slot.declared?

variable {ε : Type} {find : String → Except ε Constituent} {filled : Rose (Label × Option Slot)}
  {root : NodeId}

/-- The names that get nodes are those that the template declares. -/
theorem map_fst_namesIn {t : Template} (hmarked : t.IsMarked) {slots : Rose Slot}
    (htree : t.tree = some slots) (hfill : slots.fill find = .ok filled) (root : NodeId) :
    (namesIn filled root).map Prod.fst = t.declaredNames := by
  obtain ⟨c, rfl⟩ := hmarked.exists_mark htree
  rw [namesIn, map_fst_declaredBy, declared_fill c hfill, declaredNames, Template.slots, htree]

/-- Where every hole can be filled, the template can. -/
theorem fill_eq_ok {slots : Rose Slot}
    (h : ∀ n ∈ slots.preorder.filterMap Slot.asked?, ∃ c, find n = .ok c) :
    ∃ filled, slots.fill find = .ok filled := by
  cases hfill : slots.fill find with
  | ok filled => exact ⟨filled, rfl⟩
  | error e =>
    obtain ⟨n, hn, he⟩ := Rose.fill_error slots hfill
    obtain ⟨c, hc⟩ := h n hn
    rw [hc] at he
    exact absurd he (by simp)

mutual

/-- If a template was filled, then so were all of its holes. -/
theorem asked_of_fill {filled : Rose (Label × Option Slot)} : ∀ c : Constituent,
    (mark c).fill find = .ok filled →
    ∀ n ∈ (mark c).preorder.filterMap Slot.asked?, ∃ d, find n = .ok d
  | .node l cs, h, n, hn => by
    rw [mark] at h hn
    cases hslot : Slot.ofLabel cs.isEmpty l with
    | hole m =>
      -- a hole has nothing below it
      rw [hslot, Rose.fill] at h
      rw [hslot, List.isEmpty_iff.mp (ofLabel_eq_hole hslot)] at hn
      obtain ⟨d, hd, _⟩ := bind_eq_ok.mp h
      obtain rfl := List.mem_singleton.mp hn
      exact ⟨d, hd⟩
    | node l' m isFoot =>
      rw [hslot] at h hn
      obtain ⟨below, hbelow, _⟩ := fill_node_eq_ok.mp h
      exact asked_of_fillAll cs hbelow n hn

theorem asked_of_fillAll {filled : List (Rose (Label × Option Slot))} : ∀ cs : List Constituent,
    Rose.fillAll find (markAll cs) = .ok filled →
    ∀ n ∈ (Rose.preorderAll (markAll cs)).filterMap Slot.asked?, ∃ d, find n = .ok d
  | [], _, _, hn => absurd hn (by simp [markAll, Rose.preorderAll])
  | c :: cs, h, n, hn => by
    rw [markAll, Rose.fillAll] at h
    rw [markAll, Rose.preorderAll, List.filterMap_append] at hn
    obtain ⟨first, hfirst, h⟩ := bind_eq_ok.mp h
    obtain ⟨others, hothers, _⟩ := bind_eq_ok.mp h
    rcases List.mem_append.mp hn with hn | hn
    · exact asked_of_fill c hfirst n hn
    · exact asked_of_fillAll cs hothers n hn

end

/-- Nodes without a fault: the first has none, and nor have the others behind it. -/
theorem firstFault_cons {footSeen : Bool} {names : List String} {s : Slot} {ss : List Slot}
    (h : firstFault footSeen names (s :: ss) = none) :
    (s.isFoot && footSeen) = false ∧ (∀ n, s.declared? = some n → n ∉ names) ∧
      firstFault (footSeen || s.isFoot) (s.declared?.toList ++ names) ss = none := by
  rw [firstFault] at h
  split at h
  · exact absurd h (by simp)
  · rename_i hfoot
    refine ⟨Bool.eq_false_iff.mpr hfoot, ?_⟩
    cases hs : s.declared? with
    | none =>
      rw [hs] at h
      exact ⟨fun n hn => absurd hn (by simp), h⟩
    | some n =>
      rw [hs] at h
      dsimp only at h
      split at h
      · exact absurd h (by simp)
      · rename_i hn
        refine ⟨fun m hm => ?_, h⟩
        obtain rfl := Option.some.inj hm
        simpa using hn

theorem nodup_of_firstFault : ∀ (slots : List Slot) (footSeen : Bool) (names : List String),
    firstFault footSeen names slots = none →
    (slots.filterMap Slot.declared?).Nodup ∧ ∀ n ∈ slots.filterMap Slot.declared?, n ∉ names
  | [], _, _, _ => ⟨List.nodup_nil, fun _ h => absurd h (by simp)⟩
  | s :: ss, footSeen, names, h => by
    obtain ⟨_, hnew, hrest⟩ := firstFault_cons h
    obtain ⟨hnodup, hothers⟩ := nodup_of_firstFault ss _ _ hrest
    rw [List.filterMap_cons]
    cases hs : s.declared? with
    | none =>
      rw [hs] at hothers
      exact ⟨hnodup, hothers⟩
    | some n =>
      rw [hs] at hothers
      refine ⟨List.nodup_cons.mpr ⟨fun hmem => hothers n hmem (List.mem_cons_self ..), hnodup⟩,
        fun m hm => ?_⟩
      rcases List.mem_cons.mp hm with rfl | hm
      · exact hnew m hs
      · exact fun hmem => hothers m hm (List.mem_cons_of_mem n hmem)

theorem countP_foot_of_firstFault : ∀ (slots : List Slot) (footSeen : Bool) (names : List String),
    firstFault footSeen names slots = none → slots.countP Slot.isFoot + footSeen.toNat ≤ 1
  | [], footSeen, _, _ => by cases footSeen <;> decide
  | s :: ss, footSeen, names, h => by
    obtain ⟨hfoot, _, hrest⟩ := firstFault_cons h
    have hle := countP_foot_of_firstFault ss _ _ hrest
    cases hs : s.isFoot with
    | true =>
      rw [hs, Bool.true_and] at hfoot
      rw [hs, Bool.or_true] at hle
      rw [List.countP_cons_of_pos hs, hfoot]
      exact hle
    | false =>
      rw [hs, Bool.or_false] at hle
      rwa [List.countP_cons_of_neg (by rw [hs]; exact Bool.false_ne_true)]

section parse

variable {cs : List Char} {t : Template} (h : parse cs = .ok t)

include h

/-- **A template that was read has no fault.** -/
theorem firstFault_of_parse : firstFault false [] t.slots = none := by
  unfold parse at h
  split at h
  · exact absurd h (by simp)
  · dsimp only at h
    split at h
    · exact absurd h (by simp)
    · rename_i hfault
      obtain rfl := Except.ok.inj h
      exact hfault

/-- A template that was read declares no name twice. -/
theorem nodup_declaredNames : t.declaredNames.Nodup :=
  (nodup_of_firstFault _ _ _ (firstFault_of_parse h)).1

/-- A template that was read has at most one foot. -/
theorem countP_foot : t.slots.countP Slot.isFoot ≤ 1 :=
  countP_foot_of_firstFault _ _ _ (firstFault_of_parse h)

end parse

/-- What stands in a list under its only entry with a key. -/
theorem lookup_eq_some_of_mem {β : Type} {l : List (String × β)} {key : String} {b : β}
    (hnodup : (l.map Prod.fst).Nodup) (h : (key, b) ∈ l) : l.lookup key = some b := by
  obtain ⟨before, after, rfl⟩ := List.append_of_mem h
  refine List.lookup_eq_some_iff.mpr ⟨before, after, rfl, fun entry hentry => ?_⟩
  rw [List.map_append, List.map_cons, List.nodup_middle, List.nodup_cons] at hnodup
  refine bne_iff_ne.mpr fun heq => hnodup.1 (List.mem_append_left _ ?_)
  exact List.mem_map.mpr ⟨entry, hentry, heq.symm⟩

/-- The name on the root gets the root. -/
theorem lookup_rootName {c : Constituent} {r : String} (hfill : (mark c).fill find = .ok filled)
    (hr : (mark c).preorder.head?.bind Slot.declared? = some r) :
    (namesIn filled root).lookup r = some root := by
  obtain ⟨l, cs⟩ := c
  rw [mark, Rose.preorder, List.head?_cons, Option.bind_some] at hr
  rw [mark] at hfill
  cases hslot : Slot.ofLabel cs.isEmpty l with
  | hole n =>
    rw [hslot] at hr
    exact absurd hr (by simp [Slot.declared?])
  | node l' n isFoot =>
    rw [hslot] at hr hfill
    obtain ⟨below, _, rfl⟩ := fill_node_eq_ok.mp hfill
    have hn : n = some r := hr
    rw [namesIn, Rose.preorder, List.zipIdx_cons, List.filterMap_cons]
    simp only [declaredBy, Option.bind_some, Slot.declared?, hn, Option.map_some,
      List.lookup_cons, beq_self_eq_true]

/-- A filled template has its foot where the template has it. -/
theorem footIn_of_foot (root : NodeId) {c : Constituent} {slot : Slot}
    (hfill : (mark c).fill find = .ok filled)
    (hfoot : (mark c).preorder.find? Slot.isFoot = some slot) :
    ∃ foot l, footIn filled root = some foot ∧
      ((l, some slot), foot) ∈ filled.preorder.zipIdx root ∧ slot.isFoot = true := by
  have hslots := congrArg (List.find? Slot.isFoot) (slots_fill c hfill)
  -- holes are no feet
  have hnohole : (fun s : Slot => decide (s.asked?.isNone = true ∧ s.isFoot = true)) =
      Slot.isFoot := by
    funext s
    cases s <;> simp [Slot.asked?, Slot.isFoot]
  rw [List.find?_filter, hnohole, hfoot, List.find?_filterMap] at hslots
  obtain ⟨⟨l, o⟩, hfound, ho⟩ := Option.bind_eq_some_iff.mp hslots
  obtain rfl : o = some slot := ho
  have hzip := congrArg (List.find? fun made : Label × Option Slot => made.2.any Slot.isFoot)
    (List.zipIdx_map_fst root filled.preorder)
  rw [List.find?_map, hfound] at hzip
  obtain ⟨⟨made, foot⟩, hfind, rfl⟩ := Option.map_eq_some_iff.mp hzip
  refine ⟨foot, l, ?_, List.mem_of_find?_eq_some hfind, List.find?_some hfoot⟩
  rw [footIn]
  exact congrArg (Option.map Prod.snd) hfind

end Template

namespace Surgery

open Template

variable {s : Surgery} {filled : Rose (Label × Option Slot)}

/-- What becomes of an application when a filled template is made: its tree lies detached at the end
of the arena, and the names that it declares have their nodes. -/
def plant (s : Surgery) (filled : Rose (Label × Option Slot)) : Surgery :=
  { s with
    tree := (s.tree.graft (filled.map Prod.fst)).1
    created := namesIn filled s.tree.nodes.size ++ s.created }

theorem lookup_plant {name : String} {id : NodeId}
    (h : (namesIn filled s.tree.nodes.size).lookup name = some id) :
    (s.plant filled).created.lookup name = some id := by
  rw [plant, List.lookup_append, h]
  rfl

theorem node?_of_created {name : String} {id : NodeId} (h : s.created.lookup name = some id) :
    s.node? name = some id := by
  rw [node?, h]
  rfl

/-- The names of a node that gives way to another one are names of the other. -/
theorem node?_rename {name : String} {id : NodeId} (h : s.created.lookup name = some id)
    (substitute : NodeId) : (s.rename id substitute).node? name = some substitute := by
  have hlookup := lookup_map_snd (fun x => if x == id then substitute else x) s.created name
  rw [h, Option.map_some, beq_self_eq_true, if_pos rfl] at hlookup
  exact node?_of_created hlookup

/-- Where the names that a template asks for have nodes, its holes can be filled. -/
theorem Resolves.fill {template : Template} (h : s.Resolves template.askedNames) {slots : Rose Slot}
    (htree : template.tree = some slots) :
    ∃ filled, slots.fill s.fetchConstituent = .ok filled := by
  refine fill_eq_ok fun name hname => ?_
  obtain ⟨id, hid⟩ := h name (by rwa [askedNames, Template.slots, htree])
  exact ⟨_, fetchConstituent_eq_ok_iff.mpr ⟨_, hid, rfl⟩⟩

end Surgery

/-- A template filled with the nodes of an application, and the number that its foot gets when it is
made next. -/
structure Template.Instance (template : Template) (s : Surgery)
    (filled : Rose (Label × Option Slot)) (foot : NodeId) : Prop where
  fill : ∃ slots, template.tree = some slots ∧ slots.fill s.fetchConstituent = .ok filled
  foot_eq : Template.footIn filled s.tree.nodes.size = some foot
  foot_ge : s.tree.nodes.size ≤ foot
  foot_lt : foot < (s.plant filled).tree.nodes.size
  root_name : ∀ r, template.rootName? = some r →
    (s.plant filled).created.lookup r = some s.tree.nodes.size
  foot_name : ∀ f, template.footName? = some f → (s.plant filled).created.lookup f = some foot

namespace Template

variable {s : Surgery} {filled : Rose (Label × Option Slot)} {foot : NodeId}

theorem foot?_isSome_of_footName {template : Template} {f : String}
    (h : template.footName? = some f) : template.foot?.isSome = true := by
  obtain ⟨slot, hslot, _⟩ := Option.bind_eq_some_iff.mp h
  rw [foot?, List.findIdx?_isSome, List.any_eq_true]
  exact ⟨slot, List.mem_of_find?_eq_some hslot, List.find?_some hslot⟩

/-- A filled template with a foot is an instance of the template. -/
theorem instance_of_fill {cs : List Char} {template : Template} (hparse : parse cs = .ok template)
    (hfoot : template.foot?.isSome = true) {slots : Rose Slot} (htree : template.tree = some slots)
    (hfill : slots.fill s.fetchConstituent = .ok filled) :
    ∃ foot, template.Instance s filled foot := by
  obtain ⟨slot, hslot⟩ : ∃ slot, template.slots.find? Slot.isFoot = some slot := by
    rw [foot?, List.findIdx?_isSome, List.any_eq_true] at hfoot
    exact Option.isSome_iff_exists.mp (List.find?_isSome.mpr hfoot)
  obtain ⟨c, rfl⟩ := (isMarked_of_parse hparse).exists_mark htree
  have hslots : template.slots = (mark c).preorder := by rw [Template.slots, htree]
  rw [hslots] at hslot
  obtain ⟨foot, l, hfootIn, hmem, hisFoot⟩ := footIn_of_foot s.tree.nodes.size hfill hslot
  have hnames : ((namesIn filled s.tree.nodes.size).map Prod.fst).Nodup := by
    rw [map_fst_namesIn (isMarked_of_parse hparse) htree hfill]
    exact nodup_declaredNames hparse
  refine ⟨foot, ⟨mark c, htree, hfill⟩, hfootIn, List.le_snd_of_mem_zipIdx hmem, ?_,
    fun r hr => ?_, fun f hf => ?_⟩
  · show foot < (s.tree.graft _).1.nodes.size
    rw [size_graft, Rose.size_map, ← Rose.length_preorder]
    exact List.snd_lt_add_of_mem_zipIdx hmem
  · rw [rootName?, hslots] at hr
    exact Surgery.lookup_plant (lookup_rootName hfill hr)
  · rw [footName?, hslots, hslot] at hf
    refine Surgery.lookup_plant (lookup_eq_some_of_mem hnames (List.mem_filterMap.mpr ?_))
    refine ⟨((l, some slot), foot), hmem, ?_⟩
    rw [declaredBy, Option.bind_some, show slot.declared? = some f from hf]
    rfl

/-- **A template with a foot can be made** where the names that it asks for have nodes. -/
theorem exists_instance {cs : List Char} {template : Template} (hparse : parse cs = .ok template)
    (hfoot : template.foot?.isSome = true) (hasked : s.Resolves template.askedNames) :
    ∃ filled foot, template.Instance s filled foot := by
  cases htree : template.tree with
  | none =>
    rw [foot?, Template.slots, htree] at hfoot
    exact absurd hfoot (by simp)
  | some slots =>
    obtain ⟨filled, hfill⟩ := hasked.fill htree
    exact ⟨filled, instance_of_fill hparse hfoot htree hfill⟩

end Template

namespace Tree

variable {t : Tree}

/-- The root of a new tree is loose. -/
theorem WellFormed.loose_graft (h : t.WellFormed) (c : Constituent) :
    (t.graft c).1.Loose t.nodes.size := by
  have htop := (t.segment_graft c).top _ (List.mem_singleton_self _)
  exact ⟨htop.2.1, htop.2.2, fun hr => Nat.lt_irrefl _ (h.root_known _ hr)⟩

/-- The nodes of a new tree are at or below its root. -/
theorem WellFormed.atOrUnder_graft (h : t.WellFormed) (c : Constituent) {n : NodeId}
    (hn : t.nodes.size ≤ n) (hlt : n < (t.graft c).1.nodes.size) :
    (t.graft c).1.AtOrUnder n t.nodes.size := by
  induction n using (h.graft c).up_induction with
  | step n ih =>
    rcases parent_graft_of_le t c hn hlt with rfl | hparent
    · exact .refl
    · obtain ⟨p, hp⟩ := Option.isSome_iff_exists.mp hparent
      exact .head hp (ih p hp (t.lt_of_under_graft c hn (.single hp)).1
        ((h.graft c).parent_lt_size hp))

end Tree

/-! ## Steps, one after the other -/

namespace Step

open Surgery Template

variable {α β : Type} {s : Surgery} {after : β → Surgery → Prop}
  {failed : Obstacle → Surgery → Prop}

theorem ends_fetch {name : String} {id : NodeId} {f : NodeId → Step β} (h : s.fetch name = .ok id)
    (hf : Ends (f id) s after failed) : Ends (fetch name >>= f) s after failed := by
  have hfetch : Ends (fetch name) s (fun a u => a = id ∧ u = s) failed :=
    Ends.get_bind (Ends.of_ofExcept (fun a ha => ⟨Except.ok.inj (ha.symm.trans h), rfl⟩)
      fun e he => absurd (he.symm.trans h) (by simp))
  refine hfetch.bind ?_ fun _ _ h => h
  rintro _ _ ⟨rfl, rfl⟩
  exact hf

/-- A name without a node of the arena decides for the whole. -/
theorem ends_fetch_error {name : String} {o : Obstacle} {f : NodeId → Step β}
    (h : s.fetch name = .error o) (hfailed : failed o s) :
    Ends (fetch name >>= f) s after failed := by
  have hfetch : Ends (fetch name) s (fun _ _ => False) failed := by
    refine Ends.get_bind ?_
    rw [h]
    exact hfailed
  exact hfetch.bind (fun _ _ h => h.elim) fun _ _ h => h

theorem ends_ask {question : Tree → Except Refusal α} {a : α} {f : α → Step β}
    (h : question s.tree = .ok a) (hf : Ends (f a) s after failed) :
    Ends (ask question >>= f) s after failed := by
  have hask : Ends (ask question) s (fun b u => b = a ∧ u = s) failed := by
    refine Ends.get_bind ?_
    rw [h]
    exact ⟨rfl, rfl⟩
  refine hask.bind ?_ fun _ _ h => h
  rintro _ _ ⟨rfl, rfl⟩
  exact hf

/-- A question that the tree refuses to answer decides for the whole. -/
theorem ends_ask_error {question : Tree → Except Refusal α} {e : Refusal} {f : α → Step β}
    (h : question s.tree = .error e) (hfailed : failed (.refused e) s) :
    Ends (ask question >>= f) s after failed := by
  have hask : Ends (ask question) s (fun _ _ => False) failed := by
    refine Ends.get_bind ?_
    rw [h]
    exact hfailed
  exact hask.bind (fun _ _ h => h.elim) fun _ _ h => h

theorem ends_require {reason : Refusal} {condition : Tree → Bool} {f : Unit → Step β}
    (h : condition s.tree = true) (hf : Ends (f ()) s after failed) :
    Ends (require reason condition >>= f) s after failed :=
  ends_ask (if_pos h) hf

/-- An edit that is not refused, and what follows it. -/
theorem ends_edit {change : Edit α} {f : α → Step β}
    (h : Ends change s.tree (fun a t => Ends (f a) { s with tree := t } after failed)
      fun _ _ => False) : Ends (edit change >>= f) s after failed := by
  unfold Ends at h
  have hedit : Ends (edit change) s (fun a u => Ends (f a) u after failed) failed := by
    refine Ends.get_bind ?_
    rcases hrun : change.run.run s.tree with ⟨_ | a, tree⟩
    · rw [hrun] at h
      exact h.elim
    · rw [hrun] at h
      exact h
  exact hedit.bind (fun _ _ h => h) fun _ _ h => h

/-- An edit that is not refused, as the last step. -/
theorem ends_last_edit {change : Edit α} {done : α → Surgery → Prop}
    (h : Ends change s.tree (fun a t => done a { s with tree := t }) fun _ _ => False) :
    Ends (edit change) s done failed := by
  unfold Ends at h
  refine Ends.get_bind ?_
  rcases hrun : change.run.run s.tree with ⟨_ | a, tree⟩
  · rw [hrun] at h
    exact h.elim
  · rw [hrun] at h
    exact h

/-! ## Templates -/

section template

variable {template : Template} {slots : Rose Slot} {filled : Rose (Label × Option Slot)}
  (htree : template.tree = some slots) (hfill : slots.fill s.fetchConstituent = .ok filled)

include htree hfill

theorem ends_instantiate {f : NodeId × Option NodeId → Step β}
    (hf : Ends (f (s.tree.nodes.size, footIn filled s.tree.nodes.size)) (s.plant filled)
      after failed) : Ends (instantiate template >>= f) s after failed := by
  have hmade : Ends (instantiate template) s (fun made u =>
      made = (s.tree.nodes.size, footIn filled s.tree.nodes.size) ∧ u = s.plant filled)
      failed := by
    unfold instantiate
    rw [htree]
    refine Ends.get_bind ?_
    rw [hfill]
    exact ⟨rfl, rfl⟩
  refine hmade.bind ?_ fun _ _ h => h
  rintro _ _ ⟨rfl, rfl⟩
  exact hf

theorem ends_instantiateWithFoot {foot : NodeId} {f : NodeId × NodeId → Step β}
    (hfoot : footIn filled s.tree.nodes.size = some foot)
    (hf : Ends (f (s.tree.nodes.size, foot)) (s.plant filled) after failed) :
    Ends (instantiateWithFoot template >>= f) s after failed := by
  have hmade : Ends (instantiateWithFoot template) s (fun made u =>
      made = (s.tree.nodes.size, foot) ∧ u = s.plant filled) failed := by
    unfold instantiateWithFoot
    refine ends_instantiate htree hfill ?_
    rw [hfoot]
    exact ⟨rfl, rfl⟩
  refine hmade.bind ?_ fun _ _ h => h
  rintro _ _ ⟨rfl, rfl⟩
  exact hf

end template

end Step

end Constituency
